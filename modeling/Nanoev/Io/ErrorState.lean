import Nanoev.Io.TcpLoop

/-!
# The error state of a TCP event

`nanoev_tcp_accept`, `nanoev_tcp_read`, `nanoev_tcp_write` and `nanoev_tcp_shutdown` test the error
flag. `nanoev_tcp_connect` and `nanoev_tcp_listen` test only that the event has no socket, and an
event that has been closed by a timeout, or whose socket could not be opened, has none: the error
state is absorbing for a client that does not call them then.

The error state does not end a connect that is pending either. When an option cannot be set in the
meantime, the event is in the error state and its connect still succeeds.
-/

namespace Nanoev

open Transition

def TcpCall.starts : TcpCall → Bool
  | connect .. | listen .. | accept .. | write .. | read .. | shutdown .. => true
  | addr .. | setOption .. => false

namespace Tcp

variable {t : Tcp} {sys : Sys} {fresh : Fresh}

/-- In the error state a call is refused, if connect and listen find that there is a socket. -/
theorem run_of_error {c : TcpCall} {op : ℕ} (herror : t.error = true) (hc : c.starts = true)
    (hopen : opens c = true → t.sock ≠ none) :
    ∃ ret, c.run t op sys fresh = (t, [], ret) ∧ ret ≠ .success := by
  have hready : t.notReady = true := by simp [notReady, herror]
  cases c with
  | connect addr timeout callback =>
    have hsock := Option.isSome_iff_ne_none.mpr (hopen rfl)
    simp only [TcpCall.run, nanoevTcpConnect]
    split_ifs <;> exact ⟨_, rfl, by simp⟩
  | listen addr =>
    have hsock := Option.isSome_iff_ne_none.mpr (hopen rfl)
    simp only [TcpCall.run, nanoevTcpListen]
    split_ifs <;> exact ⟨_, rfl, by simp⟩
  | accept timeout callback alloc =>
    simp only [TcpCall.run, nanoevTcpAccept, herror, true_or, or_true, if_true]
    split_ifs <;> exact ⟨_, rfl, by simp⟩
  | write b timeout callback =>
    simp only [TcpCall.run, nanoevTcpWrite, hready, true_or, if_true]
    split_ifs <;> exact ⟨_, rfl, by simp⟩
  | read b timeout callback =>
    simp only [TcpCall.run, nanoevTcpRead, hready, true_or, if_true]
    split_ifs <;> exact ⟨_, rfl, by simp⟩
  | shutdown how =>
    simp only [TcpCall.run, nanoevTcpShutdown, systemCall, hready, if_true]
    split_ifs <;> exact ⟨_, rfl, by simp⟩
  | addr | setOption => cases hc

/-- The completion leads to a call of `on_connect` that reports success. -/
def ReportsConnect (t : Tcp) (d : Dir) (sys : Sys) (fresh : Fresh) : Prop :=
  ∃ call, IoEffect.call call ∈ (t.tcpProactorCallback d sys fresh).2.2 ∧
    t.onConnect = some call.op ∧ call.status = 0

end Tcp

/-! ## Events whose connect is pending -/

/-- The client does not open a socket on an event that is in the error state and has none, and no
option fails to be set while a connect is pending. -/
def TcpAct.respectsError (v : TcpView) : TcpAct → Prop
  | .call c sys => (Tcp.opens c = true → v.t.sock = none → v.t.error = false) ∧
      (c = .setOption true → v.t.onConnect ≠ none → sys.other = none)
  | _ => True

theorem TcpAct.respectsError.noReopen {v : TcpView} {a : TcpAct} (h : a.respectsError v) :
    a.noReopen v := by
  cases a with
  | call c sys => exact h.1
  | _ => trivial

namespace TcpView

open Tcp

variable {v : TcpView} {t' : Tcp} {d : Dir} {sys : Sys} {fresh : Fresh} {effects : List IoEffect}

theorem Ok.of_onConnect (h : v.Ok) (hc : v.t.onConnect ≠ none) :
    v.t.writing = true ∧ v.t.connected = false ∧ v.t.listening = false := by
  have honConn : v.t.onConnect.isSome = (v.t.writing && !v.t.connected) := h.write.onConn
  rw [Option.isSome_iff_ne_none.mpr hc] at honConn
  obtain ⟨hwriting, hconnected⟩ := Bool.and_eq_true_iff.mp honConn.symm
  have hconnected : v.t.connected = false := by simpa using hconnected
  refine ⟨hwriting, hconnected, ?_⟩
  rcases h.write.mode hwriting with hcon | hmay
  · exact absurd (hconnected.symm.trans hcon) (by decide)
  · simpa [Tcp.side] using hmay

theorem Ok.of_reading (h : v.Ok) (hr : v.t.reading = true) :
    v.t.connected = true ∨ v.t.listening = true := h.read.mode hr

/-- A connect is only pending outside of the error state. -/
def Connecting (v : TcpView) : Prop := v.t.onConnect ≠ none → v.t.error = false

namespace Connecting

theorem of_role {q b : Dir → ℕ} (hok : v.Ok) (honConnect : t'.onConnect = v.t.onConnect)
    (hrole : v.t.connected = true ∨ v.t.listening = true) : Connecting ⟨t', q, b⟩ := by
  intro hc
  obtain ⟨-, hconnected, hlistening⟩ := hok.of_onConnect (honConnect ▸ hc)
  rcases hrole with hcon | hlis
  · exact absurd (hconnected.symm.trans hcon) (by decide)
  · exact absurd (hlistening.symm.trans hlis) (by decide)

theorem call {c : TcpCall} {op : ℕ} {ret : RetCode} (h : v.Connecting) (hok : v.Ok)
    (hlive : v.t.deleted = false)
    (ha : (opens c = true → v.t.sock = none → v.t.error = false) ∧
      (c = .setOption true → v.t.onConnect ≠ none → sys.other = none))
    (hc : CallOutcome v.t op sys fresh c t' effects ret) (q : Dir → ℕ) :
    Connecting ⟨t', q, v.batched⟩ := by
  -- nothing is pending on an event without a socket
  have hidle : opens c = true → v.t.sock = none → v.t.onConnect = none := by
    intro hopens hsock
    obtain ⟨-, hw, -⟩ := hok.pristine (ha.1 hopens hsock) hlive hsock
    exact (hok.write_idle hw).onConn
  cases hc with
  | refused | listenDone | acceptQueued | acceptDeferred | writeQueued | writeDeferred
  | readDeferred => exact h
  | systemFailed hop hready =>
    rcases hready with ⟨rfl, hother⟩ | ⟨-, hrole⟩
    · exact fun hon ↦ absurd (ha.2 rfl hon) hother
    · exact of_role hok rfl hrole
  | noSocket hopens hsock | openFailed hopens hsock =>
    exact fun hon ↦ absurd (hidle hopens hsock) hon
  | connectQueued hsock | connectDeferred hsock => exact fun _ ↦ ha.1 rfl hsock
  | acceptFailed hlistening => exact of_role hok rfl (.inr hlistening)
  | writeFailed hconnected | readFailed hconnected => exact of_role hok rfl (.inl hconnected)

theorem timeout (hok : v.Ok) (hactive : (v.t.timeout d).active = true)
    (ho : TimeoutOutcome v.t d sys t' effects) : Connecting ⟨t', v.queued, v.batched⟩ := by
  cases ho with
  | readIgnored hd =>
    subst hd
    exact of_role hok rfl (hok.of_reading (hok.read.timeout hactive).1)
  | acceptExpired hd hto hreading | readExpired hd hto hreading =>
    exact of_role hok rfl (hok.of_reading hreading)
  | writeIgnored hd hτ her hlost =>
    subst hd
    intro hon
    obtain ⟨hwriting, hconnected, -⟩ := hok.of_onConnect hon
    have hop : v.t.timeoutWrite.op = .connect := by
      have := (hok.write.timeout hactive).2.2
      rw [show (v.t.side .write).connected = false from hconnected] at this
      exact this
    rcases hlost with hlost | ⟨hlost, -⟩
    · exact absurd (hlost.symm.trans hwriting) (by decide)
    · exact absurd (hlost hop) hon
  | connectExpired => exact fun hon ↦ absurd rfl hon
  | writeExpired hd hto hwriting hop =>
    have honIo : v.t.onWrite.isSome = (v.t.writing && v.t.connected) := hok.write.onIo
    rw [hop, hwriting, Option.isSome_some, Bool.true_and] at honIo
    exact of_role hok rfl (.inl honIo.symm)

theorem offer {completed : Bool} (h : v.Connecting)
    (ho : OfferOutcome v.t d sys fresh t' completed effects) (b : Dir → ℕ) :
    Connecting ⟨t', v.queued, b⟩ := by
  cases ho <;> exact h

/-- A completion that is on the way to an event that is neither connected nor listening is the one
of its connect. -/
theorem onConnect_of_batched (hok : v.Ok) (hbatch : 0 < v.batched d)
    (hconnected : v.t.connected = false) (hlistening : v.t.listening = false) :
    d = .write ∧ v.t.writing = true ∧ v.t.onConnect ≠ none := by
  have hflag := (hok.side d).flag (Nat.add_pos_right _ hbatch)
  cases d with
  | read =>
    rcases hok.of_reading hflag with h | h
    · exact absurd (hconnected.symm.trans h) (by decide)
    · exact absurd (hlistening.symm.trans h) (by decide)
  | write =>
    have hwriting : v.t.writing = true := hflag
    have honConn : v.t.onConnect.isSome = (v.t.writing && !v.t.connected) := hok.write.onConn
    rw [hwriting, hconnected] at honConn
    exact ⟨rfl, hwriting, Option.isSome_iff_ne_none.mp honConn⟩

theorem dispatch {client : Option Tcp} (hok : v.Ok) (hbatch : 0 < v.batched d)
    (ho : DispatchOutcome v.t d sys fresh t' client effects) (b : Dir → ℕ) :
    Connecting ⟨t', v.queued, b⟩ := by
  cases ho with
  | readDone _ _ hconnected | writeDone _ _ hconnected | readStale _ _ hconnected
  | writeStale _ _ hconnected => exact of_role hok rfl (.inl hconnected)
  | acceptDone _ _ hlistening | acceptDropped _ _ hlistening | acceptStale _ _ hlistening =>
    exact of_role hok rfl (.inr hlistening)
  | connectDone | connectFailed => exact fun hon ↦ absurd rfl hon
  | connectStale hn hconnected hlistening hlost =>
    obtain ⟨-, hwriting, hon⟩ := onConnect_of_batched hok hbatch hconnected hlistening
    rcases hlost with hlost | hlost
    · exact absurd (hlost.symm.trans hwriting) (by decide)
    · exact absurd hlost hon

end Connecting

end TcpView

theorem TcpStep.connecting {v v' : TcpView} {a : TcpAct} (hstep : TcpStep v a v') (hok : v.Ok)
    (h : v.Connecting) (ha : a.respectsError v) : v'.Connecting := by
  cases hstep with
  | call hlive hkernel hc => exact h.call hok hlive ha hc _
  | timeout hactive hbatch ho => exact .timeout hok hactive ho
  | offer hnone ho => exact h.offer ho _
  | dispatch hbatch ho => exact .dispatch hok hbatch ho _
  | free | link | poll => exact h

/-- When `on_connect` reports success, the event is ready for reads and writes. -/
theorem TcpView.Connecting.ready {v : TcpView} {d : Dir} {sys : Sys} {fresh : Fresh}
    (h : v.Connecting) (hok : v.Ok) (hreports : v.t.ReportsConnect d sys fresh) :
    let t' := (v.t.tcpProactorCallback d sys fresh).1
    t'.notReady = false ∧ t'.reading = false ∧ t'.writing = false := by
  obtain ⟨call, hcall, hop, hstatus⟩ := hreports
  have hon : v.t.onConnect ≠ none := by simp [hop]
  obtain ⟨hwriting, hconnected, hlistening⟩ := hok.of_onConnect hon
  have hreading : v.t.reading = false := by
    refine Bool.eq_false_of_not_eq_true fun hr ↦ ?_
    rcases hok.of_reading hr with hcon | hlis
    · exact absurd (hconnected.symm.trans hcon) (by decide)
    · exact absurd (hlistening.symm.trans hlis) (by decide)
  have hout : Tcp.DispatchOutcome v.t d sys fresh _ _ _ := Tcp.dispatch_outcome d
  rcases hcb : v.t.tcpProactorCallback d sys fresh with ⟨t', client, effects⟩
  rw [hcb] at hout hcall
  dsimp only at hout hcall ⊢
  cases hout with
  | readDone _ _ hcon | writeDone _ _ hcon | readStale _ _ hcon | writeStale _ _ hcon =>
    exact absurd (hconnected.symm.trans hcon) (by decide)
  | acceptDone _ _ hlis | acceptDropped _ _ hlis | acceptStale _ _ hlis =>
    exact absurd (hlistening.symm.trans hlis) (by decide)
  | connectStale => cases hcall
  | connectFailed hn _ _ _ _ hfailed =>
    -- a connect that has failed does not report success
    rcases hfailed with hdel | hfailed
    · rw [hdel] at hcall
      cases hcall
    · unfold Tcp.callUnless at hcall
      split at hcall
      · cases hcall
      · obtain rfl := IoEffect.call.inj (List.mem_singleton.mp hcall)
        exact absurd hstatus hfailed
  | @connectDone m k er ec op err m' k' hn _ _ _ _ hdeleted hzero hreg =>
    have herror : er = false := by
      rw [hn.error, h hon, hzero]
      rfl
    have hsock : k' ≠ none := by
      rw [Ne, epollPollerModify_eq_none_iff hreg]
      obtain ⟨events, err, -, hreg₁⟩ := hn.reg
      rw [epollPollerModify_eq_none_iff hreg₁]
      intro hnone
      obtain ⟨-, hw, -⟩ := hok.pristine (h hon) hdeleted hnone
      exact absurd (hw.symm.trans hwriting) (by decide)
    refine ⟨?_, hreading, rfl⟩
    simp [Tcp.notReady, hsock, herror, hdeleted]

/-! ## The loop -/

namespace IoLoop

variable {s s' : IoLoop} {a : Action} {i : ℕ} {t : Tcp}

/-- The client does not call connect or listen on a TCP event that is in the error state and has no
socket, and no option fails to be set on an event whose connect is pending. -/
def respectsError (s : IoLoop) : Action → Bool
  | .tcp i c sys =>
    match s.mem i with
    | some (.tcp t) =>
      !(Tcp.opens c && t.sock.isNone && t.error) &&
        !(decide (c = .setOption true) && t.onConnect.isSome && sys.other.isSome)
    | _ => true
  | _ => true

theorem respectsError_call {c : TcpCall} {sys : Sys} (h : s.respectsError (.tcp i c sys) = true)
    (ht : s.mem i = some (.tcp t)) :
    (Tcp.opens c = true → t.sock = none → t.error = false) ∧
      (c = .setOption true → t.onConnect ≠ none → sys.other = none) := by
  rw [respectsError, ht] at h
  obtain ⟨h₁, h₂⟩ := Bool.and_eq_true_iff.mp h
  constructor
  · intro hopens hsock
    simpa [hopens, hsock] using h₁
  · rintro rfl hon
    have hsome := Option.isSome_iff_ne_none.mpr hon
    simpa [hsome] using h₂

theorem respectsError_does {act : TcpAct} (h : s.respectsError a = true)
    (ht : s.mem i = some (.tcp t)) (hdoes : does a i act) :
    act.respectsError (s.tcpView i t) := by
  cases act with
  | call c sys =>
    rw [does] at hdoes
    subst hdoes
    exact respectsError_call h ht
  | _ => trivial

/-- The error state of the TCP events of a loop is absorbing. -/
structure Absorbing (s : IoLoop) : Prop where
  /-- A call on an event in the error state fails and does nothing. -/
  calls : ∀ i t c sys, s.mem i = some (.tcp t) → t.error = true → c.starts = true →
    s.respectsError (.tcp i c sys) = true →
    ∃ ret, c.run t s.nextOp sys s.fresh = (t, [], ret) ∧ ret ≠ .success
  role : ∀ i t, s.mem i = some (.tcp t) → ¬(t.connected = true ∧ t.listening = true)
  /-- After `on_connect` has reported success, reads and writes are not refused. -/
  connects : ∀ i t d rest sys, s.batch = (i, d) :: rest → s.mem i = some (.tcp t) →
    t.ReportsConnect d sys s.fresh →
    let t' := (t.tcpProactorCallback d sys s.fresh).1
    t'.notReady = false ∧ t'.reading = false ∧ t'.writing = false

theorem NewView.connecting {v : TcpView} (h : NewView v) : v.Connecting := by
  cases h <;> exact fun _ ↦ rfl

/-- **The error state is absorbing** for a client that respects it. -/
theorem absorbing_of_respectsError
    (h : Reachable step (fun s a ↦ s.respectsError a = true) init s) : s.Absorbing := by
  obtain ⟨-, hinv⟩ : s.Wf ∧ s.TcpInv fun v ↦ v.Ok ∧ v.Connecting := by
    refine h.invariant (I := fun s ↦ s.Wf ∧ s.TcpInv fun v ↦ v.Ok ∧ v.Connecting)
      ⟨init_wf, init_tcpInv _⟩ fun s a s' hs hok hstep ↦ ?_
    refine ⟨(step_eq_some hstep).wf hs.1, ?_⟩
    refine hs.2.step (A := fun v act ↦ act.respectsError v) hs.1 hstep
      (fun v hv ↦ ⟨hv.ok, hv.connecting⟩) (fun v act v' htcp hv hact ↦ ?_)
      fun i t act ht hdoes ↦ respectsError_does hok ht hdoes
    exact ⟨htcp.ok_of_noReopen hv.1 hact.noReopen, htcp.connecting hv.1 hv.2 hact⟩
  refine ⟨fun i t c sys ht herror hc hok ↦ ?_, fun i t ht hboth ↦ ?_, ?_⟩
  · refine Tcp.run_of_error herror hc fun hopens hsock ↦ ?_
    exact absurd (herror.symm.trans ((respectsError_call hok ht).1 hopens hsock)) (by decide)
  · have hrole := (hinv i t ht).1.role hboth.1
    exact absurd (hrole.symm.trans hboth.2) (by decide)
  · intro i t d rest sys hb ht hreports
    obtain ⟨hok, hconnecting⟩ := hinv i t ht
    exact hconnecting.ready hok hreports

/-- A connection is made, and a read with a timeout, which expires; the client is in `on_read`. -/
def readTimesOut : List Action :=
  [.new .tcp, .tcp 0 (.connect true none true) (.ok 0), .runEnter, .processEndgame, .takeQueued,
    .dispatch (.ok 0), .tcp 0 (.read ⟨9, 16⟩ (some ⟨1, 0⟩) true) (.ok 0), .callbackReturn,
    .nextRound, .timeoutFires 0 .read (.ok 0)]

theorem absorbing_of_respectsError_readTimesOut :
    ∃ s t, exec step (fun s a ↦ s.respectsError a = true) init readTimesOut = some s ∧
      s.mem 0 = some (.tcp t) ∧ t.error = true ∧ t.sock = none ∧ s.Absorbing := by
  have hrun : ((exec step (fun s a ↦ s.respectsError a = true) init readTimesOut).bind fun s ↦
      (s.tcpAt 0).map fun t ↦ (t.error, t.sock)) = some (true, none) := by decide +kernel
  obtain ⟨s, t, hs, ht, hfields⟩ := exists_tcpAt_of_exec hrun
  obtain ⟨herror, hsock⟩ := Prod.mk.inj hfields
  exact ⟨s, t, hs, ht, herror, hsock,
    absorbing_of_respectsError (Reachable.of_exec hs)⟩

/-- An option cannot be set while a connect is pending, which then succeeds. -/
def optionFails : List Action :=
  [.new .tcp, .tcp 0 (.connect true none true) (.ok 0),
    .tcp 0 (.setOption true) { Sys.ok 0 with other := some .again }, .runEnter, .processEndgame,
    .takeQueued, .dispatch (.ok 0)]

/-- After the timeout of a read, connect and listen open a new socket and succeed, and the event
both is connected and listens; and `on_connect` reports success for an event that is in the error
state. -/
theorem readTimesOut_not_absorbing :
    (∃ s t, Reachable step anyStep init s ∧ s.mem 0 = some (.tcp t) ∧ t.error = true ∧
      ((TcpCall.connect true none true).run t s.nextOp (.ok 0) s.fresh).2 =
        ([.opened 11, .submit .write], .success)) ∧
    (∃ s t, Reachable step anyStep init s ∧ s.mem 0 = some (.tcp t) ∧ t.connected = true ∧
      t.listening = true) ∧
    ∃ s t, Reachable step anyStep init s ∧ s.mem 0 = some (.tcp t) ∧ t.notReady = true ∧
      s.calls.map CallRecord.call = [⟨0, 0, 0, 0, none⟩] := by
  refine ⟨?_, ?_, ?_⟩
  · have hrun : ((exec step anyStep init readTimesOut).bind fun s ↦ (s.tcpAt 0).map fun t ↦
        (t.error, ((TcpCall.connect true none true).run t s.nextOp (.ok 0) s.fresh).2)) =
        some (true, ([.opened 11, .submit .write], .success)) := by decide +kernel
    obtain ⟨s, t, hs, ht, hfields⟩ := exists_tcpAt_of_exec hrun
    exact ⟨s, t, Reachable.of_exec hs, ht, Prod.mk.inj hfields⟩
  · have hrun : ((exec step anyStep init (readTimesOut ++ [.tcp 0 (.listen true) (.ok 0)])).bind
        fun s ↦ (s.tcpAt 0).map fun t ↦ (t.connected, t.listening)) = some (true, true) := by
      decide +kernel
    obtain ⟨s, t, hs, ht, hfields⟩ := exists_tcpAt_of_exec hrun
    exact ⟨s, t, Reachable.of_exec hs, ht, Prod.mk.inj hfields⟩
  · have hrun : ((exec step anyStep init optionFails).bind fun s ↦ (s.tcpAt 0).map fun t ↦
        (t.notReady, s.calls.map CallRecord.call)) = some (true, [⟨0, 0, 0, 0, none⟩]) := by
      decide +kernel
    obtain ⟨s, t, hs, ht, hfields⟩ := exists_tcpAt_of_exec hrun
    exact ⟨s, t, Reachable.of_exec hs, ht, Prod.mk.inj hfields⟩

end IoLoop

end Nanoev
