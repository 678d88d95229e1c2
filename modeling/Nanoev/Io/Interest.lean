import Nanoev.Io.ErrorState
import Nanoev.Io.Progress

/-!
# The interest that an event has cached

`epoll_poller_modify` chooses between `EPOLL_CTL_ADD`, `EPOLL_CTL_MOD` and `EPOLL_CTL_DEL`, or
leaves out the call, by the interest that the event has cached in `reactor_events`. A descriptor
that is closed is no longer registered, and `close_tcp_socket` does not reset the cached interest.
Only a connect that expires takes its interest back before: after the timeout of an accept, a read
or a write the event has no socket and an interest in reading, and a socket that is opened then is
not registered at all, or refused with `ENOENT`.

As long as no such timeout expires the cached interest is the one that the kernel holds, for any
client.
-/

namespace Nanoev

open Transition

/-- The registration of an event: what it has cached is what the kernel holds, an event without a
socket is idle and has no interest, and an event that connects is not interested in reading. -/
structure TcpView.Mirroring (v : TcpView) : Prop where
  mirror : Mirrored v.t.reactorEvents v.t.sock
  closed : v.t.deleted = false → v.t.sock = none →
    (v.t.reading = false ∧ v.t.writing = false ∧ v.t.connected = false ∧ v.t.listening = false) ∧
      v.t.reactorEvents = .empty
  connects : v.t.onConnect ≠ none → v.t.reactorEvents.read = false

/-- A timeout that expires is the one of a connect, and the kernel takes back the interest. -/
def TcpAct.keepsInterest (v : TcpView) : TcpAct → Prop
  | .timeout d sys => d = .write ∧ v.t.timeoutWrite.op = .connect ∧ sys.epollCtl = none
  | _ => True

namespace TcpView.Mirroring

open Tcp

variable {v : TcpView} {t' : Tcp} {d : Dir} {sys : Sys} {fresh : Fresh} {effects : List IoEffect}
  {q b : Dir → ℕ}

theorem of_sock (hm : Mirrored t'.reactorEvents t'.sock) (hsock : t'.sock ≠ none)
    (hc : t'.onConnect ≠ none → t'.reactorEvents.read = false) : Mirroring ⟨t', q, b⟩ :=
  ⟨hm, fun _ h ↦ absurd h hsock, hc⟩

theorem of_role {events m : Mask} {k : Option Socket} {err : Option Errno} (h : v.Mirroring)
    (hok : v.Ok) (hlive : v.t.deleted = false)
    (hrole : v.t.connected = true ∨ v.t.listening = true)
    (hreg : epollPollerModify v.t.reactorEvents v.t.sock events sys = ⟨err, m, k⟩)
    (hm : t'.reactorEvents = m) (hk : t'.sock = k) (hc : t'.onConnect = v.t.onConnect) :
    Mirroring ⟨t', q, b⟩ := by
  refine of_sock ?_ ?_ fun hon ↦ ?_
  · rw [hm, hk]
    exact h.mirror.of_modify hreg
  · rw [hk, Ne, epollPollerModify_eq_none_iff hreg]
    intro hnone
    obtain ⟨⟨-, -, hcon, hlis⟩, -⟩ := h.closed hlive hnone
    rw [hcon, hlis] at hrole
    simp at hrole
  · obtain ⟨-, hcon, hlis⟩ := hok.of_onConnect (hc ▸ hon)
    rw [hcon, hlis] at hrole
    simp at hrole

theorem call {c : TcpCall} {op : ℕ} {ret : RetCode} (h : v.Mirroring) (hok : v.Ok)
    (hlive : v.t.deleted = false) (hc : CallOutcome v.t op sys fresh c t' effects ret) :
    Mirroring ⟨t', q, b⟩ := by
  -- a new socket is registered by an event that has cached no interest and is idle
  have hopened : ∀ {events m k err}, v.t.sock = none →
      epollPollerModify v.t.reactorEvents (some ⟨fresh.fd, .empty⟩) events sys = ⟨err, m, k⟩ →
        Mirrored m k ∧ k ≠ none ∧ v.t.onConnect = none := by
    intro events m k err hsock hreg
    obtain ⟨⟨-, hw, -⟩, hm⟩ := h.closed hlive hsock
    rw [hm] at hreg
    refine ⟨(mirrored_new fresh.fd).of_modify hreg, ?_, (hok.write_idle hw).onConn⟩
    rw [Ne, epollPollerModify_eq_none_iff hreg]
    exact Option.some_ne_none _
  cases hc with
  | refused | systemFailed | noSocket | acceptFailed | readFailed =>
    exact ⟨h.mirror, h.closed, h.connects⟩
  | openFailed hopens hsock hreg | listenDone hsock hreg =>
    obtain ⟨hm, hk, hon⟩ := hopened hsock hreg
    exact of_sock hm hk fun hne ↦ absurd hon hne
  | connectQueued hsock =>
    obtain ⟨-, hm⟩ := h.closed hlive hsock
    refine of_sock ?_ (Option.some_ne_none _) fun _ ↦ ?_
    · show Mirrored v.t.reactorEvents _
      rw [hm]
      exact mirrored_new fresh.fd
    · show v.t.reactorEvents.read = false
      rw [hm]
      rfl
  | connectDeferred hsock hreg =>
    obtain ⟨hm, hk, -⟩ := hopened hsock hreg
    refine of_sock hm hk fun _ ↦ ?_
    have hempty := (h.closed hlive hsock).2
    dsimp only
    obtain ⟨hsame, -⟩ | ⟨-, hnew, -⟩ := epollPollerModify_cases hreg
    · rw [hsame, hempty]
      rfl
    · rw [hnew, hempty]
      rfl
  | acceptQueued hlistening hsock | acceptDeferred hlistening hsock
  | writeQueued hconnected hsock | readDeferred hconnected hsock =>
    exact of_sock h.mirror hsock h.connects
  | writeFailed hconnected herror hwriting hreg
  | writeDeferred hconnected hsock herror hwriting hreg =>
    exact h.of_role hok hlive (.inl hconnected) hreg rfl rfl rfl

theorem connectExpires {m : Mask} {k : Option Socket} {err : Option Errno} (h : v.Mirroring)
    (hon : v.t.onConnect ≠ none) (hctl : sys.epollCtl = none) (hsock : v.t.sock ≠ none)
    (hreg : epollPollerModify v.t.reactorEvents v.t.sock v.t.reactorEvents.andNotWrite sys =
      ⟨err, m, k⟩) : m = .empty := by
  obtain ⟨x, hx⟩ := Option.ne_none_iff_exists'.mp hsock
  rw [hx, epollPollerModify_some (h.mirror x hx) hctl] at hreg
  cases hreg
  rw [Mask.andNotWrite, h.connects hon]
  rfl

theorem timeout (h : v.Mirroring) (hok : v.Ok) (hactive : (v.t.timeout d).active = true)
    (ha : d = .write ∧ v.t.timeoutWrite.op = .connect ∧ sys.epollCtl = none)
    (ho : TimeoutOutcome v.t d sys t' effects) : Mirroring ⟨t', q, b⟩ := by
  obtain ⟨rfl, hop, hctl⟩ := ha
  cases ho with
  | readIgnored hd | acceptExpired hd | readExpired hd => cases hd
  | writeIgnored _ _ _ hlost => exact (hok.write.not_ignored hactive hlost).elim
  | connectExpired hd hto hwriting hon hreg =>
    have hne : v.t.onConnect ≠ none := by simp [hon]
    obtain ⟨-, hcon, hlis⟩ := hok.of_onConnect hne
    have hreading : v.t.reading = false := by
      refine Bool.eq_false_of_not_eq_true fun hr ↦ ?_
      have hrole := hok.of_reading hr
      rw [hcon, hlis] at hrole
      simp at hrole
    refine ⟨nofun, fun hlive _ ↦ ⟨⟨hreading, rfl, hcon, hlis⟩, ?_⟩, fun h ↦ absurd rfl h⟩
    refine h.connectExpires hne hctl (fun hnone ↦ ?_) hreg
    exact absurd ((h.closed hlive hnone).1.2.1.symm.trans hwriting) (by decide)
  | writeExpired hd hto => exact absurd (hto.symm.trans hop) (by decide)

/-- A completion is only on the way to an event whose socket is open, or which has been freed. -/
theorem dispatched {events m : Mask} {k : Option Socket} {err : Option Errno} (h : v.Mirroring)
    (hok : v.Ok) (hbatch : 0 < v.batched d) (hm : Mirrored t'.reactorEvents t'.sock)
    (hk : t'.sock = none → k = none) (hdel : t'.deleted = v.t.deleted)
    (hreg : epollPollerModify v.t.reactorEvents v.t.sock events sys = ⟨err, m, k⟩)
    (hc : t'.onConnect ≠ none →
      t'.onConnect = v.t.onConnect ∧ (v.t.connected = true ∨ v.t.listening = true)) :
    Mirroring ⟨t', q, b⟩ := by
  refine ⟨hm, fun hlive hnone ↦ ?_, fun hon ↦ ?_⟩
  · have hflag := (hok.side d).flag (Nat.add_pos_right _ hbatch)
    have hsock := (epollPollerModify_eq_none_iff hreg).mp (hk hnone)
    obtain ⟨⟨hr, hw, -⟩, -⟩ := h.closed (hdel.symm.trans hlive) hsock
    cases d with
    | read => exact absurd (hr.symm.trans hflag) (by decide)
    | write => exact absurd (hw.symm.trans hflag) (by decide)
  · obtain ⟨heq, hrole⟩ := hc hon
    obtain ⟨-, hcon, hlis⟩ := hok.of_onConnect (heq ▸ hon)
    rw [hcon, hlis] at hrole
    simp at hrole

theorem dispatch {client : Option Tcp} (h : v.Mirroring) (hok : v.Ok) (hbatch : 0 < v.batched d)
    (ho : DispatchOutcome v.t d sys fresh t' client effects) : Mirroring ⟨t', q, b⟩ := by
  have hnoted : ∀ {m k er}, Noted v.t d sys m k er → Mirrored m k ∧
      ∃ events err, epollPollerModify v.t.reactorEvents v.t.sock events sys = ⟨err, m, k⟩ := by
    intro m k er hn
    obtain ⟨events, err, -, hreg⟩ := hn.reg
    exact ⟨h.mirror.of_modify hreg, events, err, hreg⟩
  cases ho with
  | readDone hn _ hcon | writeDone hn _ hcon | readStale hn _ hcon | writeStale hn _ hcon =>
    obtain ⟨hm, events, err, hreg⟩ := hnoted hn
    exact h.dispatched hok hbatch hm id rfl hreg fun _ ↦ ⟨rfl, .inl hcon⟩
  | acceptDone hn _ hlis | acceptDropped hn _ hlis | acceptStale hn _ hlis =>
    obtain ⟨hm, events, err, hreg⟩ := hnoted hn
    exact h.dispatched hok hbatch hm id rfl hreg fun _ ↦ ⟨rfl, .inr hlis⟩
  | connectDone hn _ _ _ _ _ _ hreg' =>
    obtain ⟨hm, events, err, hreg⟩ := hnoted hn
    exact h.dispatched hok hbatch (hm.of_modify hreg') (epollPollerModify_eq_none_iff hreg').mp rfl
      hreg fun hne ↦ absurd rfl hne
  | connectFailed hn =>
    obtain ⟨hm, events, err, hreg⟩ := hnoted hn
    exact h.dispatched hok hbatch hm id rfl hreg fun hne ↦ absurd rfl hne
  | connectStale hn hcon hlis hlost =>
    obtain ⟨-, hwriting, hon⟩ := Connecting.onConnect_of_batched hok hbatch hcon hlis
    rcases hlost with hlost | hlost
    · exact absurd (hlost.symm.trans hwriting) (by decide)
    · exact absurd hlost hon

theorem offer {completed : Bool} (h : v.Mirroring)
    (ho : OfferOutcome v.t d sys fresh t' completed effects) : Mirroring ⟨t', q, b⟩ := by
  cases ho <;> exact ⟨h.mirror, h.closed, h.connects⟩

end TcpView.Mirroring

/-- **The registration of a TCP event** is kept by its steps. -/
theorem TcpStep.mirroring {v v' : TcpView} {a : TcpAct} (hstep : TcpStep v a v') (hok : v.Ok)
    (h : v.Mirroring) (ha : a.keepsInterest v) : v'.Ok ∧ v'.Mirroring := by
  constructor
  · refine hstep.ok_of_opensIdle hok ?_
    cases hstep with
    | call hlive => exact fun _ hsock ↦ (h.closed hlive hsock).1
    | _ => trivial
  · cases hstep with
    | call hlive hkernel hc => exact h.call hok hlive hc
    | timeout hactive hbatch ho => exact h.timeout hok hactive ha ho
    | offer hnone ho => exact h.offer ho
    | dispatch hbatch ho => exact h.dispatch hok hbatch ho
    | free => exact ⟨nofun, nofun, h.connects⟩
    | link | poll => exact ⟨h.mirror, h.closed, h.connects⟩

namespace IoLoop

variable {s : IoLoop} {a : Action} {i : ℕ} {t : Tcp}

/-- No timeout of an accept, a read or a write expires, and when a timeout of a connect expires
`epoll_ctl` does not fail. -/
def keepsInterest (s : IoLoop) : Action → Bool
  | .timeoutFires i d sys =>
    match s.mem i with
    | some (.tcp t) => decide (d = .write ∧ t.timeoutWrite.op = .connect) && sys.epollCtl.isNone
    | _ => true
  | _ => true

theorem keepsInterest_does {act : TcpAct} (h : s.keepsInterest a = true)
    (ht : s.mem i = some (.tcp t)) (hdoes : does a i act) :
    act.keepsInterest (s.tcpView i t) := by
  cases act with
  | timeout d sys =>
    rw [does] at hdoes
    rw [hdoes, keepsInterest, ht] at h
    obtain ⟨hop, hctl⟩ := Bool.and_eq_true_iff.mp h
    rw [decide_eq_true_eq] at hop
    exact ⟨hop.1, hop.2, Option.isNone_iff_eq_none.mp hctl⟩
  | _ => trivial

/-- The cached interest of the TCP events is the one that the kernel holds, which is none without a
socket; so the operation that `epoll_poller_modify` chooses is not refused because of it. -/
def InterestMirrored (s : IoLoop) : Prop :=
  ∀ i t, s.mem i = some (.tcp t) → s.freed i = false →
    t.reactorEvents = (Obj.tcp t).interest ∧
      ∀ k events sys, t.sock = some k → sys.epollCtl = none →
        (epollPollerModify t.reactorEvents (some k) events sys).error = none

theorem NewView.mirroring {v : TcpView} (h : NewView v) : v.Mirroring := by
  cases h with
  | tcpNew => exact ⟨nofun, fun _ _ ↦ ⟨⟨rfl, rfl, rfl, rfl⟩, rfl⟩, fun h ↦ absurd rfl h⟩
  | client u fd =>
    refine .of_sock (fun x hx ↦ ?_) (Option.some_ne_none _) fun h ↦ absurd rfl h
    obtain rfl := Option.mem_some_iff.mp hx
    rfl

/-- **The cached interest mirrors the kernel** in every run in which no timeout of an accept, a read
or a write expires. -/
theorem interestMirrored_of_keepsInterest
    (h : Reachable step (fun s a ↦ s.keepsInterest a = true) init s) : s.InterestMirrored := by
  obtain ⟨hw, hinv⟩ : s.Wf ∧ s.TcpInv fun v ↦ v.Ok ∧ v.Mirroring := by
    refine h.invariant (I := fun s ↦ s.Wf ∧ s.TcpInv fun v ↦ v.Ok ∧ v.Mirroring)
      ⟨init_wf, init_tcpInv _⟩ fun s a s' hs hok hstep ↦ ?_
    refine ⟨(step_eq_some hstep).wf hs.1, ?_⟩
    exact hs.2.step (A := fun v act ↦ act.keepsInterest v) hs.1 hstep
      (fun v hv ↦ ⟨hv.ok, hv.mirroring⟩) (fun v act v' htcp hv hact ↦ htcp.mirroring hv.1 hv.2 hact)
      fun i t act ht hdoes ↦ keepsInterest_does hok ht hdoes
  intro i t ht hf
  obtain ⟨-, hmirror, hclosed, -⟩ := hinv i t ht
  constructor
  · cases hk : t.sock with
    | none =>
      have hempty : t.reactorEvents = .empty := (hclosed ((hw.memory.deleted ht).trans hf) hk).2
      rw [hempty, Obj.interest, Obj.sock, hk]
      rfl
    | some k =>
      rw [Obj.interest, Obj.sock, hk]
      exact (hmirror k hk).symm
  · intro k events sys hk hctl
    have hinterest : k.interest = t.reactorEvents := hmirror k hk
    rw [epollPollerModify_some hinterest hctl]

/-- A connect times out, and the client calls connect again. -/
def connectAgain : List Action :=
  [.new .tcp, .tcp 0 (.connect true (some ⟨1, 0⟩) true) { Sys.ok 0 with connect := .inProgress },
    .runEnter, .timeoutFires 0 .write (.ok 0),
    .tcp 0 (.connect true none true) { Sys.ok 0 with connect := .inProgress }]

theorem interestMirrored_of_keepsInterest_connectAgain :
    ∃ s t, exec step (fun s a ↦ s.keepsInterest a = true) init connectAgain = some s ∧
      s.mem 0 = some (.tcp t) ∧ t.error = true ∧ t.reactorEvents = ⟨false, true⟩ ∧
      s.InterestMirrored := by
  have hrun : ((exec step (fun s a ↦ s.keepsInterest a = true) init connectAgain).bind fun s ↦
      (s.tcpAt 0).map fun t ↦ (t.error, t.reactorEvents)) = some (true, ⟨false, true⟩) := by
    decide +kernel
  obtain ⟨s, t, hs, ht, hfields⟩ := exists_tcpAt_of_exec hrun
  obtain ⟨herror, hm⟩ := Prod.mk.inj hfields
  exact ⟨s, t, hs, ht, herror, hm,
    interestMirrored_of_keepsInterest (Reachable.of_exec hs)⟩

def acceptTimesOut : List Action :=
  [.new .tcp, .tcp 0 (.listen true) (.ok 0),
    .tcp 0 (.accept (some ⟨1, 0⟩) true false) { Sys.ok 0 with accept := .wouldBlock }, .runEnter,
    .timeoutFires 0 .read (.ok 0)]

/-- After the timeout of an accept the event has no socket and an interest in reading. When the
client calls listen again, the call succeeds and the new socket is not registered. A connect that
times out keeps its interest when `epoll_ctl` fails. -/
theorem acceptTimesOut_not_interestMirrored :
    (∃ s t, Reachable step anyStep init s ∧ s.mem 0 = some (.tcp t) ∧ s.freed 0 = false ∧
      t.sock = none ∧ t.reactorEvents = .evRead) ∧
    (∃ s t, Reachable step anyStep init s ∧ s.mem 0 = some (.tcp t) ∧ t.listening = true ∧
      t.sock = some ⟨9, .empty⟩ ∧ t.reactorEvents = .evRead) ∧
    ∃ s t, Reachable step anyStep init s ∧ s.mem 0 = some (.tcp t) ∧ s.freed 0 = false ∧
      t.sock = none ∧ t.reactorEvents = ⟨false, true⟩ := by
  refine ⟨?_, ?_, ?_⟩
  · have hrun : ((exec step anyStep init acceptTimesOut).bind fun s ↦ (s.tcpAt 0).map fun t ↦
        (s.freed 0, t.sock, t.reactorEvents)) = some (false, none, .evRead) := by decide +kernel
    obtain ⟨s, t, hs, ht, hfields⟩ := exists_tcpAt_of_exec hrun
    simp only [Prod.mk.injEq] at hfields
    exact ⟨s, t, Reachable.of_exec hs, ht, hfields⟩
  · have hrun : ((exec step anyStep init (acceptTimesOut ++ [.tcp 0 (.listen true) (.ok 0)])).bind
        fun s ↦ (s.tcpAt 0).map fun t ↦ (t.listening, t.sock, t.reactorEvents)) =
        some (true, some ⟨9, .empty⟩, .evRead) := by decide +kernel
    obtain ⟨s, t, hs, ht, hfields⟩ := exists_tcpAt_of_exec hrun
    simp only [Prod.mk.injEq] at hfields
    exact ⟨s, t, Reachable.of_exec hs, ht, hfields⟩
  · have hrun : ((exec step anyStep init (connectAgain.take 3 ++
        [.timeoutFires 0 .write { Sys.ok 0 with epollCtl := some .nomem }])).bind fun s ↦
        (s.tcpAt 0).map fun t ↦ (s.freed 0, t.sock, t.reactorEvents)) =
        some (false, none, ⟨false, true⟩) := by decide +kernel
    obtain ⟨s, t, hs, ht, hfields⟩ := exists_tcpAt_of_exec hrun
    simp only [Prod.mk.injEq] at hfields
    exact ⟨s, t, Reachable.of_exec hs, ht, hfields⟩

end IoLoop

end Nanoev
