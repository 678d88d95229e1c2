import Nanoev.Io.TcpLoop

/-!
# The timeouts of a TCP event

A TCP event has a timer node for each direction, with a field that says which operation the timeout
is for. The functions on the event arm a node when they start an operation with a timeout, and take
it out when the operation is completed, when the call fails after all, and when the event is freed;
the loop takes it out when it expires.

`Timing` is what of an event matters for this in one direction, and `Timing.Changed` lists what a
function can do to it. The list is short for every function on every path, which makes the invariant
`Timing.Sound` independent of what the client does: a node is in the heap exactly when its operation
is set, and then the operation is pending and its callback stored. In particular it does not matter
whether the client opens a socket on an event in the error state, since the error exit of
`nanoev_tcp_connect` deletes the timeout that it has found there.
-/

namespace Nanoev

open Transition

/-- The part of one direction of a TCP event that its timeout depends on. -/
structure Timing where
  timeout : TcpTimeout
  flag : Bool
  /-- `on_read` or `on_write`. -/
  onIo : Option ℕ
  /-- `on_accept` or `on_connect`. -/
  onConn : Option ℕ
  deleted : Bool

def Tcp.timing (t : Tcp) : Dir → Timing
  | .read => ⟨t.timeoutRead, t.reading, t.onRead, t.onAccept, t.deleted⟩
  | .write => ⟨t.timeoutWrite, t.writing, t.onWrite, t.onConnect, t.deleted⟩

/-- The callback that is stored for the operation of a timeout. -/
def Tcp.callbackOf (t : Tcp) : TcpTimeoutOp → Option ℕ
  | .none => none
  | .connect => t.onConnect
  | .accept => t.onAccept
  | .read => t.onRead
  | .write => t.onWrite

/-- The delay that a call passes to `tcp_timeout_add`, if it comes to that. -/
def TcpCall.timeout? : TcpCall → Option Timeval
  | connect _ timeout _ | accept timeout _ _ | write _ timeout _ | read _ timeout _ => timeout
  | _ => none

/-- What it takes for a call to arm the node of a direction: an operation of that direction, a valid
delay, and memory for the heap. -/
def TcpCall.Arms (c : TcpCall) (d : Dir) (sys : Sys) : Prop :=
  (∃ kind b, c.op? = some (kind, b) ∧ kind.dir = d) ∧
    (∃ after, c.timeout? = some after ∧ invalidDelay after = false) ∧ sys.timerNode = true

theorem TcpCall.Arms.dir_unique {c : TcpCall} {d e : Dir} {sys : Sys} (h : c.Arms d sys)
    (h' : c.Arms e sys) : d = e := by
  obtain ⟨⟨kind, b, hop, rfl⟩, -⟩ := h
  obtain ⟨⟨kind', b', hop', rfl⟩, -⟩ := h'
  obtain ⟨rfl, -⟩ := Prod.mk.inj (Option.some.inj (hop.symm.trans hop'))
  rfl

namespace Timing

variable {d : Dir} {arms arms' : Prop} {x x' : Timing}

/-- The callback of a read or write, or of an accept or connect. -/
def callback (x : Timing) (io : Bool) : Option ℕ := if io then x.onIo else x.onConn

/-- The timeout is off, or it is armed for a pending operation of an event that is not freed. -/
def Sound (d : Dir) (x : Timing) : Prop :=
  x.timeout = ⟨false, .none⟩ ∨
    ∃ io, x.timeout = ⟨true, d.timeoutOp io⟩ ∧ x.flag = true ∧ (x.callback io).isSome = true ∧
      x.deleted = false

/-- What a function can do to a direction; it arms the timeout only if `arms`. -/
inductive Changed (d : Dir) (arms : Prop) (x x' : Timing) : Prop
  | kept (htimeout : x'.timeout = x.timeout) (hflag : x.flag = true → x'.flag = true)
      (hcallback : ∀ io, (x.callback io).isSome = true → (x'.callback io).isSome = true)
      (hdeleted : x'.deleted = x.deleted)
  | dropped (htimeout : x'.timeout = ⟨false, .none⟩)
  | armed (io : Bool) (htimeout : x'.timeout = ⟨true, d.timeoutOp io⟩) (hflag : x'.flag = true)
      (hcallback : (x'.callback io).isSome = true) (hdeleted : x'.deleted = false) (harms : arms)
  /-- `tcp_timeout_add` has been called on an idle direction whose node is in the heap. -/
  | spoiled (hactive : x.timeout.active = true) (hflag : x.flag = false)

theorem Changed.of_eq (h : x' = x) : Changed d arms x x' := by
  rw [h]
  exact .kept rfl id (fun _ ↦ id) rfl

/-- An operation is started: its flag is set and its callback stored. -/
def start (x : Timing) (io : Bool) (op : ℕ) : Timing :=
  { x with
    flag := true
    onIo := if io then some op else x.onIo
    onConn := if io then x.onConn else some op }

theorem Changed.start (x : Timing) (io : Bool) (op : ℕ) : Changed d arms x (x.start io op) := by
  refine .kept rfl (fun _ ↦ rfl) (fun b h ↦ ?_) rfl
  cases b <;> cases io <;> first | rfl | exact h

/-- An operation is started after `tcp_timeout_add` has armed the node for it. -/
theorem Changed.startTimed (x : Timing) (io : Bool) (op : ℕ) (hlive : x.deleted = false)
    (harms : arms) :
    Changed d arms x { x.start io op with timeout := ⟨true, d.timeoutOp io⟩ } := by
  refine .armed io rfl rfl ?_ hlive harms
  cases io <;> rfl

theorem Changed.fail {τ : TcpTimeout} (hflag : x.flag = false)
    (hτ : τ = ⟨false, .none⟩ ∨ x.timeout.active = true) :
    Changed d arms x { x with timeout := τ } := by
  rcases hτ with hoff | hactive
  · exact .dropped hoff
  · exact .spoiled hactive hflag

theorem Dir.timeoutOp_ne_none (d : Dir) (io : Bool) : d.timeoutOp io ≠ .none := by
  cases d <;> cases io <;> decide

theorem Sound.active_iff (h : x.Sound d) : x.timeout.active = true ↔ x.timeout.op ≠ .none := by
  rcases h with hoff | ⟨io, hon, -⟩
  · simp [hoff]
  · simp [hon, Dir.timeoutOp_ne_none]

theorem Changed.sound (h : Changed d arms x x') (hx : x.Sound d) : x'.Sound d := by
  cases h with
  | kept htimeout hflag hcallback hdeleted =>
    rcases hx with hoff | ⟨io, hon, hf, hcb, hdel⟩
    · exact .inl (htimeout.trans hoff)
    · exact .inr ⟨io, htimeout.trans hon, hflag hf, hcallback io hcb, hdeleted.trans hdel⟩
  | dropped htimeout => exact .inl htimeout
  | armed io htimeout hflag hcallback hdeleted =>
    exact .inr ⟨io, htimeout, hflag, hcallback, hdeleted⟩
  | spoiled hactive hflag =>
    rcases hx with hoff | ⟨io, -, hf, -⟩
    · rw [hoff] at hactive
      cases hactive
    · rw [hflag] at hf
      cases hf

theorem Changed.arms_of_active (h : Changed d arms x x') (hoff : x.timeout.active = false)
    (hon : x'.timeout.active = true) : arms := by
  cases h with
  | kept htimeout =>
    rw [htimeout, hoff] at hon
    cases hon
  | dropped htimeout =>
    rw [htimeout] at hon
    cases hon
  | armed _ _ _ _ _ harms => exact harms
  | spoiled hactive =>
    rw [hoff] at hactive
    cases hactive

end Timing

/-! ## The functions -/

namespace Tcp

open Timing

variable {t t' : Tcp} {op : ℕ} {sys : Sys} {fresh : Fresh} {d : Dir}

/-! ### Sockets and errors -/

theorem setError_timing (t : Tcp) (e : ℤ) (d : Dir) : (t.setError e).timing d = t.timing d := by
  cases d <;> rfl

theorem registerProactor_timing (t : Tcp) (events : Mask) (sys : Sys) (d : Dir) :
    (t.registerProactor events sys).1.timing d = t.timing d := by
  cases d <;> rfl

theorem closeTcpSocket_timing (t : Tcp) (d : Dir) : t.closeTcpSocket.1.timing d = t.timing d := by
  unfold closeTcpSocket
  split <;> cases d <;> rfl

theorem createTcpSocket_timing (t : Tcp) (sys : Sys) (fresh : Fresh) (d : Dir) :
    (t.createTcpSocket sys fresh).1.timing d = t.timing d := by
  unfold createTcpSocket
  split
  · rfl
  · dsimp only
    split <;> cases d <;> rfl

theorem dropWriteInterest_timing (t : Tcp) (sys : Sys) (d : Dir) :
    (t.dropWriteInterest sys).timing d = t.timing d := by
  unfold dropWriteInterest
  split
  · exact registerProactor_timing ..
  · rfl

theorem noteStatus_timing (t : Tcp) (d : Dir) (sys : Sys) (e : Dir) :
    (t.noteStatus d sys).timing e = t.timing e := by
  have hdrop : (if d = .write then t.dropWriteInterest sys else t).timing e = t.timing e := by
    split
    · exact dropWriteInterest_timing ..
    · rfl
  unfold noteStatus
  dsimp only
  split
  · exact (setError_timing ..).trans hdrop
  · exact hdrop

theorem listen_timing (localAddr : Bool) :
    (t.nanoevTcpListen localAddr sys fresh).1.timing d = t.timing d := by
  unfold nanoevTcpListen
  split_ifs
  · rfl
  · rfl
  · rw [← createTcpSocket_timing t sys fresh d]
    rcases t.createTcpSocket sys fresh with ⟨t₁, opened, _ | e⟩
    · dsimp only
      rw [← registerProactor_timing t₁ .evRead sys d]
      rcases t₁.registerProactor .evRead sys with ⟨t₂, _ | e⟩
      · dsimp only
        split
        · exact setError_timing ..
        · exact setError_timing ..
        · cases d <;> rfl
      · exact setError_timing ..
    · exact setError_timing ..

/-! ### Starting operations -/

theorem connectError_changed {arms : Prop} (t : Tcp) (del : Bool) (e : ℤ) (d : Dir) :
    Changed d arms (t.timing d) ((t.connectError del e).timing d) := by
  cases d with
  | read => exact .of_eq rfl
  | write =>
    cases del with
    | false => exact .of_eq rfl
    | true => exact .dropped rfl

theorem acceptError_changed {arms : Prop} (t : Tcp) (del : Bool) (e : ℤ) (d : Dir) :
    Changed d arms (t.timing d) ((t.acceptError del e).timing d) := by
  cases d with
  | read =>
    cases del with
    | false => exact .of_eq rfl
    | true => exact .dropped rfl
  | write => exact .of_eq rfl

theorem tcpTimeoutAdd_success {τ τ' : TcpTimeout} {o : TcpTimeoutOp} {mem : Bool}
    (h : tcpTimeoutAdd τ o mem = (τ', true)) : τ' = ⟨true, o⟩ ∧ mem = true := by
  unfold tcpTimeoutAdd at h
  split_ifs at h with hactive hmem
  · cases h
  · cases h
    exact ⟨rfl, hmem⟩
  · cases h

theorem tcpTimeoutAdd_failure {τ τ' : TcpTimeout} {o : TcpTimeoutOp} {mem : Bool}
    (h : tcpTimeoutAdd τ o mem = (τ', false)) : τ' = ⟨false, .none⟩ ∨ τ.active = true := by
  unfold tcpTimeoutAdd at h
  split_ifs at h with hactive hmem
  · exact .inr hactive
  · cases h
  · cases h
    exact .inl rfl

theorem connecting_changed {arms : Prop} (t : Tcp) (op : ℕ) (d : Dir) :
    Changed d arms (t.timing d)
      (timing { t with writing := true, onConnect := some op } d) := by
  cases d with
  | read => exact .of_eq rfl
  | write => exact .start (t.timing .write) false op

theorem arms_of_valid {c : TcpCall} {kind : OpKind} {b : IoBuf} {after : Timeval}
    (hop : c.op? = some (kind, b)) (hd : kind.dir = d) (hafter : c.timeout? = some after)
    (hdelay : ¬((some after).any invalidDelay = true)) (hmem : sys.timerNode = true) :
    c.Arms d sys := by
  refine ⟨⟨kind, b, hop, hd⟩, ⟨after, hafter, ?_⟩, hmem⟩
  simpa using hdelay

theorem connect_changed (addr : Bool) (timeout : Option Timeval) (hlive : t.deleted = false) :
    Changed d ((TcpCall.connect addr timeout true).Arms d sys) (t.timing d)
      ((t.nanoevTcpConnect addr timeout (some op) sys fresh).1.timing d) := by
  unfold nanoevTcpConnect
  by_cases hargs : addr = false ∨ some op = none
  · rw [if_pos hargs]
    exact .of_eq rfl
  rw [if_neg hargs]
  by_cases hdelay : timeout.any invalidDelay = true
  · rw [if_pos hdelay]
    exact .of_eq rfl
  rw [if_neg hdelay]
  by_cases hsock : t.sock.isSome = true
  · rw [if_pos hsock]
    exact .of_eq rfl
  rw [if_neg hsock, ← createTcpSocket_timing t sys fresh d]
  have hlive₁ : (t.createTcpSocket sys fresh).1.deleted = false :=
    (congrArg Timing.deleted (createTcpSocket_timing t sys fresh .read)).trans hlive
  rcases hcreate : t.createTcpSocket sys fresh with ⟨t₁, opened, _ | e⟩
  · rw [hcreate] at hlive₁
    dsimp only at hlive₁ ⊢
    cases sys.connect with
    | failed e => exact connectError_changed ..
    | done =>
      have hctx : timing { t₁ with ctxWrite := ⟨0, 0⟩ } d = t₁.timing d := by cases d <;> rfl
      dsimp only
      rw [← hctx]
      split
      · exact connecting_changed ..
      · exact connectError_changed ..
    | inProgress =>
      have hlive₂ : (t₁.registerProactor t₁.reactorEvents.orWrite sys).1.deleted = false := hlive₁
      dsimp only
      rw [← registerProactor_timing t₁ t₁.reactorEvents.orWrite sys d]
      rcases hreg : t₁.registerProactor t₁.reactorEvents.orWrite sys with ⟨t₂, _ | e⟩
      · rw [hreg] at hlive₂
        cases timeout with
        | none => exact connecting_changed ..
        | some after =>
          dsimp only
          rcases hadd : tcpTimeoutAdd t₂.timeoutWrite .connect sys.timerNode with ⟨τ, _ | _⟩
          · cases d with
            | read => exact .of_eq rfl
            | write => exact .dropped rfl
          · obtain ⟨rfl, hmem⟩ := tcpTimeoutAdd_success hadd
            cases d with
            | read => exact .of_eq rfl
            | write =>
              exact .startTimed (t₂.timing .write) false op hlive₂
                (arms_of_valid rfl rfl rfl hdelay hmem)
      · exact connectError_changed ..
  · exact connectError_changed ..

theorem accept_changed (timeout : Option Timeval) (alloc : Bool) (hlive : t.deleted = false) :
    Changed d ((TcpCall.accept timeout true alloc).Arms d sys) (t.timing d)
      ((t.nanoevTcpAccept timeout (some op) alloc sys fresh).1.timing d) := by
  unfold nanoevTcpAccept
  rw [if_neg (Option.some_ne_none op)]
  by_cases hdelay : timeout.any invalidDelay = true
  · rw [if_pos hdelay]
    exact .of_eq rfl
  rw [if_neg hdelay]
  by_cases hready : t.sock = none ∨ t.error ∨ t.deleted ∨ !t.listening ∨ t.reading
  · rw [if_pos hready]
    exact .of_eq rfl
  rw [if_neg hready]
  have hslot : ∀ c, timing { t with readSlot := .accept alloc none, ctxRead := c } d =
    t.timing d := by
    cases d <;> exact fun c ↦ rfl
  cases sys.accept with
  | failed e =>
    rw [← hslot t.ctxRead]
    exact acceptError_changed ..
  | done =>
    cases sys.closeOnExec with
    | some e =>
      rw [← hslot t.ctxRead]
      exact acceptError_changed ..
    | none =>
      dsimp only
      split
      · cases d with
        | read => exact .start (t.timing .read) false op
        | write => exact .of_eq rfl
      · rw [← hslot ⟨0, fresh.fd⟩]
        exact acceptError_changed ..
  | wouldBlock =>
    cases timeout with
    | none =>
      cases d with
      | read => exact .start (t.timing .read) false op
      | write => exact .of_eq rfl
    | some after =>
      dsimp only
      rcases hadd : tcpTimeoutAdd t.timeoutRead .accept sys.timerNode with ⟨τ, _ | _⟩
      · cases d with
        | read => exact .dropped rfl
        | write => exact .of_eq rfl
      · obtain ⟨rfl, hmem⟩ := tcpTimeoutAdd_success hadd
        cases d with
        | read =>
          exact .startTimed (t.timing .read) false op hlive (arms_of_valid rfl rfl rfl hdelay hmem)
        | write => exact .of_eq rfl

theorem write_changed (b : IoBuf) (timeout : Option Timeval) (hlive : t.deleted = false) :
    Changed d ((TcpCall.write b timeout true).Arms d sys) (t.timing d)
      ((t.nanoevTcpWrite b timeout (some op) sys).1.timing d) := by
  unfold nanoevTcpWrite
  by_cases hargs : b.buf = 0 ∨ b.len = 0 ∨ some op = none
  · rw [if_pos hargs]
    exact .of_eq rfl
  rw [if_neg hargs]
  by_cases hdelay : timeout.any invalidDelay = true
  · rw [if_pos hdelay]
    exact .of_eq rfl
  rw [if_neg hdelay]
  by_cases hready : t.notReady ∨ t.writing
  · rw [if_pos hready]
    exact .of_eq rfl
  rw [if_neg hready]
  have hidle : t.writing = false := by
    rw [not_or, Bool.not_eq_true, Bool.not_eq_true] at hready
    exact hready.2
  cases sys.io with
  | failed e => cases d <;> exact .of_eq rfl
  | done n =>
    dsimp only
    split
    · cases d with
      | read => exact .of_eq rfl
      | write => exact .start (t.timing .write) true op
    · cases d <;> exact .of_eq rfl
  | wouldBlock =>
    dsimp only
    have hbuf : (registerProactor { t with bufWrite := b, ctxWrite := ⟨0, 0⟩ }
        t.reactorEvents.orWrite sys).1.timing d = t.timing d := by
      cases d <;> rfl
    have hlive₁ : (registerProactor { t with bufWrite := b, ctxWrite := ⟨0, 0⟩ }
        t.reactorEvents.orWrite sys).1.deleted = false := hlive
    have hidle₁ : (registerProactor { t with bufWrite := b, ctxWrite := ⟨0, 0⟩ }
        t.reactorEvents.orWrite sys).1.writing = false := hidle
    rw [← hbuf]
    rcases hreg : registerProactor { t with bufWrite := b, ctxWrite := ⟨0, 0⟩ }
      t.reactorEvents.orWrite sys with ⟨t₁, _ | e⟩
    · rw [hreg] at hlive₁ hidle₁
      cases timeout with
      | none =>
        cases d with
        | read => exact .of_eq rfl
        | write => exact .start (t₁.timing .write) true op
      | some after =>
        dsimp only
        rcases hadd : tcpTimeoutAdd t₁.timeoutWrite .write sys.timerNode with ⟨τ, _ | _⟩
        · cases d with
          | read => exact .of_eq rfl
          | write =>
            exact @Changed.fail .write _ (t₁.timing .write) τ hidle₁ (tcpTimeoutAdd_failure hadd)
        · obtain ⟨rfl, hmem⟩ := tcpTimeoutAdd_success hadd
          cases d with
          | read => exact .of_eq rfl
          | write =>
            exact .startTimed (t₁.timing .write) true op hlive₁
              (arms_of_valid rfl rfl rfl hdelay hmem)
    · exact .of_eq (setError_timing ..)

theorem read_changed (b : IoBuf) (timeout : Option Timeval) (hlive : t.deleted = false) :
    Changed d ((TcpCall.read b timeout true).Arms d sys) (t.timing d)
      ((t.nanoevTcpRead b timeout (some op) sys).1.timing d) := by
  unfold nanoevTcpRead
  by_cases hargs : b.buf = 0 ∨ b.len = 0 ∨ some op = none
  · rw [if_pos hargs]
    exact .of_eq rfl
  rw [if_neg hargs]
  by_cases hdelay : timeout.any invalidDelay = true
  · rw [if_pos hdelay]
    exact .of_eq rfl
  rw [if_neg hdelay]
  by_cases hready : t.notReady ∨ t.reading
  · rw [if_pos hready]
    exact .of_eq rfl
  rw [if_neg hready]
  have hidle : t.reading = false := by
    rw [not_or, Bool.not_eq_true, Bool.not_eq_true] at hready
    exact hready.2
  cases timeout with
  | none =>
    cases d with
    | read => exact .start (t.timing .read) true op
    | write => exact .of_eq rfl
  | some after =>
    dsimp only
    rcases hadd : tcpTimeoutAdd t.timeoutRead .read sys.timerNode with ⟨τ, _ | _⟩
    · cases d with
      | read => exact @Changed.fail .read _ (t.timing .read) τ hidle (tcpTimeoutAdd_failure hadd)
      | write => exact .of_eq rfl
    · obtain ⟨rfl, hmem⟩ := tcpTimeoutAdd_success hadd
      cases d with
      | read =>
        exact .startTimed (t.timing .read) true op hlive (arms_of_valid rfl rfl rfl hdelay hmem)
      | write => exact .of_eq rfl

theorem systemCall_timing (refused : Bool) :
    (t.systemCall refused sys).1.timing d = t.timing d := by
  unfold systemCall
  split
  · rfl
  · split
    · exact setError_timing ..
    · rfl

theorem run_changed (c : TcpCall) (hlive : t.deleted = false) :
    Changed d (c.Arms d sys) (t.timing d) ((c.run t op sys fresh).1.timing d) := by
  cases c with
  | connect addr timeout callback =>
    cases callback with
    | false => exact .of_eq (by simp [TcpCall.run, nanoevTcpConnect])
    | true => exact connect_changed addr timeout hlive
  | listen addr => exact .of_eq (listen_timing addr)
  | accept timeout callback alloc =>
    cases callback with
    | false => exact .of_eq (by simp [TcpCall.run, nanoevTcpAccept])
    | true => exact accept_changed timeout alloc hlive
  | write b timeout callback =>
    cases callback with
    | false => exact .of_eq (by simp [TcpCall.run, nanoevTcpWrite])
    | true => exact write_changed b timeout hlive
  | read b timeout callback =>
    cases callback with
    | false => exact .of_eq (by simp [TcpCall.run, nanoevTcpRead])
    | true => exact read_changed b timeout hlive
  | shutdown how =>
    refine .of_eq ?_
    simp only [TcpCall.run, nanoevTcpShutdown]
    split
    · rfl
    · exact systemCall_timing _
  | addr present isLocal =>
    refine .of_eq ?_
    simp only [TcpCall.run, nanoevTcpAddr]
    split
    · rfl
    · exact systemCall_timing _
  | setOption valid =>
    refine .of_eq ?_
    simp only [TcpCall.run, tcpSetOption]
    split
    · rfl
    · exact systemCall_timing _

/-! ### Completions and expiry -/

theorem changed_of_read {arms : Prop} (hread : t'.timeoutRead = ⟨false, .none⟩)
    (hwrite : t'.timing .write = t.timing .write) : Changed d arms (t.timing d) (t'.timing d) := by
  cases d with
  | read => exact .dropped hread
  | write => exact .of_eq hwrite

theorem changed_of_write {arms : Prop} (hread : t'.timing .read = t.timing .read)
    (hwrite : t'.timeoutWrite = ⟨false, .none⟩) : Changed d arms (t.timing d) (t'.timing d) := by
  cases d with
  | read => exact .of_eq hread
  | write => exact .dropped hwrite

theorem readCompleted_changed (status : ℤ) (bytes : ℕ) :
    Changed d False (t.timing d) ((t.readCompleted status bytes).1.timing d) := by
  unfold readCompleted
  split
  · cases d <;> exact .of_eq rfl
  · dsimp only
    split <;> exact changed_of_read rfl rfl

theorem writeCompleted_changed (status : ℤ) (bytes : ℕ) :
    Changed d False (t.timing d) ((t.writeCompleted status bytes).1.timing d) := by
  unfold writeCompleted
  split
  · cases d <;> exact .of_eq rfl
  · dsimp only
    split <;> exact changed_of_write rfl rfl

theorem acceptCompleted_changed (status : ℤ) :
    Changed d False (t.timing d) ((t.acceptCompleted status sys fresh).1.timing d) := by
  unfold acceptCompleted
  split
  · cases d <;> exact .of_eq rfl
  · dsimp only
    split
    · exact changed_of_read rfl rfl
    · split <;> exact changed_of_read rfl rfl

theorem connectCompleted_changed (status : ℤ) :
    Changed d False (t.timing d) ((t.connectCompleted status sys).1.timing d) := by
  unfold connectCompleted
  split
  · cases d <;> exact .of_eq rfl
  · dsimp only
    split
    · exact changed_of_write rfl rfl
    · split
      · exact changed_of_write rfl rfl
      · split <;> exact changed_of_write rfl rfl

theorem tcpProactorCallback_changed (e : Dir) :
    Changed d False (t.timing d) ((t.tcpProactorCallback e sys fresh).1.timing d) := by
  unfold tcpProactorCallback
  rw [← noteStatus_timing t e sys d]
  dsimp only
  split
  · cases e with
    | read => exact readCompleted_changed ..
    | write => exact writeCompleted_changed ..
  · split
    · exact acceptCompleted_changed _
    · exact connectCompleted_changed _

theorem timing_timeout (t : Tcp) (d : Dir) : (t.timing d).timeout = t.timeout d := by
  cases d <;> rfl

theorem not_lost (hs : (t.timing d).Sound d) (hactive : (t.timeout d).active = true) :
    ¬((t.timing d).flag = false ∨
      ((t.timeout d).op = d.timeoutOp false → (t.timing d).onConn = none) ∧
        ((t.timeout d).op = d.timeoutOp true → (t.timing d).onIo = none)) := by
  rw [← timing_timeout] at hactive ⊢
  rcases hs with hoff | ⟨io, hon, hflag, hcallback, -⟩
  · rw [hoff] at hactive
    cases hactive
  · rintro (hidle | ⟨hconn, hio⟩)
    · rw [hidle] at hflag
      cases hflag
    · rw [hon] at hconn hio
      cases io with
      | false =>
        rw [callback, if_neg Bool.false_ne_true, hconn rfl] at hcallback
        cases hcallback
      | true =>
        rw [callback, if_pos rfl, hio rfl] at hcallback
        cases hcallback

/-- The expiry of an armed node turns its timeout off and leaves the other direction alone. -/
theorem TimeoutOutcome.timing {effects : List IoEffect} (h : TimeoutOutcome t d sys t' effects)
    (hs : (t.timing d).Sound d) (hactive : (t.timeout d).active = true) :
    t'.timeout d = ⟨false, .none⟩ ∧ ∀ e, e ≠ d → t'.timing e = t.timing e := by
  have hlost := not_lost hs hactive
  cases h with
  | readIgnored hd _ _ hignored | writeIgnored hd _ _ hignored =>
    subst hd
    exact absurd hignored hlost
  | acceptExpired hd | readExpired hd =>
    subst hd
    refine ⟨rfl, fun e he ↦ ?_⟩
    cases e with
    | read => exact absurd rfl he
    | write => rfl
  | connectExpired hd | writeExpired hd =>
    subst hd
    refine ⟨rfl, fun e he ↦ ?_⟩
    cases e with
    | read => rfl
    | write => exact absurd rfl he

theorem OfferOutcome.timing {e : Dir} {completed : Bool} {effects : List IoEffect}
    (h : OfferOutcome t d sys fresh t' completed effects) : t'.timing e = t.timing e := by
  cases h <;> cases e <;> rfl

theorem tcpFree_timeout (t : Tcp) (d : Dir) : (t.tcpFree.1.timing d).timeout = ⟨false, .none⟩ := by
  rw [tcpFree, closeTcpSocket_timing]
  cases d <;> rfl

end Tcp

/-! ## The loop -/

namespace IoLoop

open Timing

variable {s s' : IoLoop} {a : Action} {j : ℕ} {d : Dir}

/-- A direction of event `j`, if that is a TCP event. -/
def timing (s : IoLoop) (j : ℕ) (d : Dir) : Option Timing := (s.tcpAt j).map fun t ↦ t.timing d

def Timed (s : IoLoop) : Prop := ∀ j d x, s.timing j d = some x → x.Sound d

/-- The node of a direction of event `j` is in the heap. -/
def armedAt (s : IoLoop) (j : ℕ) (d : Dir) : Bool := (s.timing j d).any fun x ↦ x.timeout.active

section Fields

variable {t : Tcp} {o : Obj}

theorem timing_congr (h : s'.mem j = s.mem j) : s'.timing j d = s.timing j d := by
  unfold timing tcpAt
  rw [h]

theorem timing_of_tcp (h : s.mem j = some (.tcp t)) : s.timing j d = some (t.timing d) := by
  unfold timing tcpAt
  rw [h]
  rfl

theorem timing_of_none (h : s.mem j = none) : s.timing j d = none := by
  unfold timing tcpAt
  rw [h]
  rfl

theorem timing_of_other (h : s.mem j = some o) (ho : o.type ≠ .tcp) : s.timing j d = none := by
  unfold timing tcpAt
  rw [h]
  cases o with
  | tcp t => exact absurd rfl ho
  | udp u | async x => rfl

theorem exists_of_timing {x : Timing} (h : s.timing j d = some x) :
    ∃ t, s.mem j = some (.tcp t) ∧ t.timing d = x := by
  obtain ⟨t, ht, hx⟩ := Option.map_eq_some_iff.mp h
  exact ⟨t, tcpAt_eq_some ht, hx⟩

end Fields

/-- What a step does to the timeouts of event `j`. -/
inductive Turn (s : IoLoop) (a : Action) (s' : IoLoop) (j : ℕ) : Prop
  /-- The event is not touched, or not in what concerns timeouts. -/
  | kept (h : ∀ d, s'.timing j d = s.timing j d)
  | created (hnone : ∀ d, s.timing j d = none)
      (hoff : ∀ d x, s'.timing j d = some x → x.timeout = ⟨false, .none⟩)
  | call {c sys} (ha : a = .tcp j c sys)
      (h : ∀ d, ∃ x x', s.timing j d = some x ∧ s'.timing j d = some x' ∧
        Changed d (c.Arms d sys) x x')
  | expired {e sys} (ha : a = .timeoutFires j e sys)
      (hactive : s.armedAt j e = true)
      (hoff : ∀ x, s'.timing j e = some x → x.timeout = ⟨false, .none⟩)
      (h : ∀ d, d ≠ e → s'.timing j d = s.timing j d)
  | dispatched {e rest sys} (ha : a = .dispatch sys) (hb : s.batch = (j, e) :: rest)
      (h : ∀ d, ∃ x x', s.timing j d = some x ∧ s'.timing j d = some x' ∧ Changed d False x x')
  | freed (ha : a = .free j) (hoff : ∀ d x, s'.timing j d = some x → x.timeout = ⟨false, .none⟩)
  /-- The memory of an event whose deletion was deferred is released. -/
  | released (ha : a = .processEndgame) (hdeleted : ∀ d x, s.timing j d = some x → x.deleted = true)
      (hnone : ∀ d, s'.timing j d = none)

/-- The expiry of a node turns its timeout off and leaves the other one of the event alone. -/
theorem timing_timeoutFires {i : ℕ} {t : Tcp} {e : Dir} {sys : Sys} (hT : s.Timed)
    (ho : s.mem i = some (.tcp t)) (hactive : (t.timeout e).active = true) :
    (∀ x, (s.timeoutFires i t e sys).timing i e = some x → x.timeout = ⟨false, .none⟩) ∧
      ∀ d, d ≠ e → (s.timeoutFires i t e sys).timing i d = s.timing i d := by
  have hout : Tcp.TimeoutOutcome t e sys _ _ := Tcp.timeout_outcome e
  obtain ⟨hoff, hother⟩ := hout.timing (hT i e _ (timing_of_tcp ho)) hactive
  have ho' : (s.timeoutFires i t e sys).mem i = some (.tcp (t.timeoutFires e sys).1) :=
    Function.update_self ..
  refine ⟨fun x hx ↦ ?_, fun d hd ↦ ?_⟩
  · rw [timing_of_tcp ho'] at hx
    obtain rfl := Option.some.inj hx
    rw [Tcp.timing_timeout]
    exact hoff
  · rw [timing_of_tcp ho', timing_of_tcp ho, hother d hd]

namespace Turn

variable {i : ℕ} {t t' : Tcp} {o o' : Obj}

theorem of_ne {x : Option Obj} (hj : j ≠ i) (hmem : s'.mem = Function.update s.mem i x) :
    s.Turn a s' j :=
  .kept fun _ ↦ timing_congr (by rw [hmem, Function.update_of_ne hj])

theorem of_other (ho : s.mem i = some o) (hmem : s'.mem = Function.update s.mem i (some o'))
    (htype : o.type ≠ .tcp) (htype' : o'.type ≠ .tcp) : s.Turn a s' j := by
  by_cases hj : j = i
  · subst hj
    have ho' : s'.mem j = some o' := by rw [hmem, Function.update_self]
    exact .kept fun d ↦ (timing_of_other ho' htype').trans (timing_of_other ho htype).symm
  · exact of_ne hj hmem

theorem of_created (hnone : s.mem j = none) (ho : s'.mem j = some o)
    (hoff : ∀ t, o = .tcp t → ∀ d, (t.timing d).timeout = ⟨false, .none⟩) : s.Turn a s' j := by
  refine .created (fun _ ↦ timing_of_none hnone) fun d x hx ↦ ?_
  obtain ⟨t, ht, rfl⟩ := exists_of_timing hx
  exact hoff t (Option.some.inj (ho.symm.trans ht)) d

theorem new (hw : s.Wf) (type : EventType) : s.Turn a (s.eventNew type) j := by
  by_cases hj : j = s.nextEvent
  · subst hj
    refine of_created (hw.memory.mem_lt le_rfl) (Function.update_self ..) fun t ht d ↦ ?_
    cases type with
    | tcp =>
      obtain rfl := Obj.tcp.inj ht
      cases d <;> rfl
    | udp | async => cases ht
  · exact .of_ne hj rfl

theorem free (ho : s.mem i = some o) : s.Turn (.free i) (s.eventFree i o) j := by
  by_cases hj : j = i
  · subst hj
    refine .freed rfl fun d x hx ↦ ?_
    obtain ⟨t', ht', rfl⟩ := exists_of_timing hx
    rw [Local.eventFree_mem, Function.update_self] at ht'
    split at ht'
    · cases o with
      | tcp t =>
        obtain rfl := Obj.tcp.inj (Option.some.inj ht')
        exact (by cases d <;> rfl : _ = (t.tcpFree.1.timing d).timeout).trans
          (Tcp.tcpFree_timeout t d)
      | udp u | async x => cases ht'
    · cases ht'
  · exact .of_ne hj (Local.eventFree_mem s i o)

theorem tcp {c : TcpCall} {sys : Sys} (hw : s.Wf) (ho : s.mem i = some (.tcp t))
    (hf : s.freed i = false) : s.Turn (.tcp i c sys) (s.tcpCall i t c sys) j := by
  by_cases hj : j = i
  · subst hj
    have hlive : t.deleted = false := (hw.memory.deleted ho).trans hf
    exact .call rfl fun d ↦
      ⟨_, _, timing_of_tcp ho, timing_of_tcp (Function.update_self ..), Tcp.run_changed c hlive⟩
  · exact .of_ne hj rfl

theorem timeoutFires {e : Dir} {sys : Sys} (hT : s.Timed) (ho : s.mem i = some (.tcp t))
    (hactive : (t.timeout e).active = true) :
    s.Turn (.timeoutFires i e sys) (s.timeoutFires i t e sys) j := by
  by_cases hj : j = i
  · subst hj
    obtain ⟨hoff, hother⟩ := timing_timeoutFires hT ho hactive
    refine .expired rfl ?_ hoff hother
    rw [armedAt, timing_of_tcp ho, Option.any_some, Tcp.timing_timeout]
    exact hactive
  · exact .of_ne hj rfl

theorem processEndgame {x : IoLoop} (hw : s.Wf) (hx : s.processEndgameProactor = some x) :
    s.Turn .processEndgame { x with phase := .waiting } j := by
  obtain ⟨l, hl⟩ := hw.memory.endgame
  obtain ⟨y, hy, -, hswept⟩ := hw.memory.processEndgame hl
  obtain rfl := Option.some.inj (hx.symm.trans hy)
  by_cases hj : j ∈ s.judged .release l
  · obtain ⟨o, ho, hdel⟩ := hl.deleted j (List.mem_of_mem_filter hj)
    refine .released rfl (fun d x hx ↦ ?_) fun d ↦ timing_of_none (hswept.gone_mem j hj)
    obtain ⟨t, ht, rfl⟩ := exists_of_timing hx
    obtain rfl := Option.some.inj (ho.symm.trans ht)
    cases d <;> exact hdel
  · obtain ⟨n, hn⟩ := hswept.links j hj
    refine .kept fun d ↦ ?_
    cases ho : s.mem j with
    | none =>
      rw [ho] at hn
      exact (timing_of_none hn).trans (timing_of_none ho).symm
    | some o =>
      rw [ho] at hn
      cases o with
      | tcp t =>
        refine (timing_of_tcp hn).trans (Eq.trans ?_ (timing_of_tcp ho).symm)
        cases d <;> rfl
      | udp u | async x =>
        exact (timing_of_other hn (by simp [Obj.withNext, Obj.setProactor, Obj.type])).trans
          (timing_of_other ho (by simp [Obj.type])).symm

theorem dispatchTcp {e : Dir} {rest : List (ℕ × Dir)} {sys : Sys} (hw : s.Wf)
    (hb : s.batch = (i, e) :: rest) (ho : s.mem i = some (.tcp t)) :
    s.Turn (.dispatch sys) (s.dispatchTcp i t e rest sys) j := by
  have hout : Tcp.DispatchOutcome t e sys s.fresh _ _ _ := Tcp.dispatch_outcome e
  have hlt := hw.memory.lt ho
  have hi : ∀ x : IoLoop, x.mem i = some (.tcp (t.tcpProactorCallback e sys s.fresh).1) →
      s.Turn (.dispatch sys) x i := fun x hx ↦
    .dispatched rfl hb fun d ↦
      ⟨_, _, timing_of_tcp ho, timing_of_tcp hx, Tcp.tcpProactorCallback_changed e⟩
  unfold IoLoop.dispatchTcp
  rcases hcb : t.tcpProactorCallback e sys s.fresh with ⟨t', client, effects⟩
  rw [hcb] at hout hi
  cases client with
  | none =>
    by_cases hj : j = i
    · subst hj
      exact hi _ (Function.update_self ..)
    · exact .of_ne hj rfl
  | some c =>
    obtain ⟨u, fd, rfl⟩ := hout.client_eq rfl
    by_cases hj : j = i
    · subst hj
      exact hi _ ((Function.update_of_ne hlt.ne _ _).trans (Function.update_self ..))
    · by_cases hn : j = s.nextEvent
      · subst hn
        refine of_created (hw.memory.mem_lt le_rfl) (Function.update_self ..) fun t ht d ↦ ?_
        obtain rfl := Obj.tcp.inj ht
        cases d <;> rfl
      · refine .kept fun d ↦ timing_congr ?_
        exact (Function.update_of_ne hn _ _).trans (Function.update_of_ne hj _ _)

end Turn

theorem Steps.turn (hstep : s.Steps a s') (hw : s.Wf) (hT : s.Timed) (j : ℕ) : s.Turn a s' j := by
  cases hstep with
  | new => exact .new hw _
  | free ho => exact .free ho
  | tcp ho hf => exact .tcp hw ho hf
  | udp ho | asyncStart ho | asyncSend ho | offerUdp hp ho | offerAsync hp ho
  | dispatchUdp hp hb ho | dispatchAsync hp hb ho => exact .of_other ho rfl nofun nofun
  | timeoutFires ho hp hactive => exact .timeoutFires hT ho hactive
  | processEndgame hp hx => exact .processEndgame hw hx
  | @offerTcp i t e sys reported offers hp ho hk =>
    have hout : Tcp.OfferOutcome t e sys s.fresh _ _ _ := Tcp.offer_outcome hk
    by_cases hj : j = i
    · subst hj
      refine .kept fun d ↦ (timing_of_tcp (Function.update_self ..)).trans ?_
      exact (congrArg some hout.timing).trans (timing_of_tcp ho).symm
    · exact .of_ne hj rfl
  | dispatchTcp hp hb ho => exact .dispatchTcp hw hb ho
  | _ => exact .kept fun _ ↦ timing_congr rfl

/-- **One step.** Sound timeouts stay sound. -/
theorem Timed.step (hT : s.Timed) (hw : s.Wf) (hstep : s.step a = some s') : s'.Timed := by
  intro j d x' hx'
  have hchanged : ∀ {arms : Prop}, (∃ x y, s.timing j d = some x ∧ s'.timing j d = some y ∧
      Changed d arms x y) → x'.Sound d := by
    rintro arms ⟨x, y, hx, hy, hc⟩
    obtain rfl := Option.some.inj (hx'.symm.trans hy)
    exact hc.sound (hT j d x hx)
  cases (step_eq_some hstep).turn hw hT j with
  | kept h => exact hT j d x' ((h d).symm.trans hx')
  | created _ hoff | freed _ hoff => exact .inl (hoff d x' hx')
  | call _ h | dispatched _ _ h => exact hchanged (h d)
  | @expired e _ _ _ hoff h =>
    by_cases hd : d = e
    · subst hd
      exact .inl (hoff x' hx')
    · exact hT j d x' ((h d hd).symm.trans hx')
  | released _ _ hnone =>
    rw [hnone d] at hx'
    cases hx'

/-- The TCP event, if any, whose function an action calls with an effect on its timeouts. -/
def subject (s : IoLoop) : Action → Option ℕ
  | .tcp i _ _ | .free i | .timeoutFires i _ _ => some i
  | .dispatch _ => s.batch.head?.map Prod.fst
  | _ => none

theorem armedAt_eq_true_iff : s.armedAt j d = true ↔
    ∃ x, s.timing j d = some x ∧ x.timeout.active = true := by
  rw [armedAt, Option.any_eq_true]

theorem armedAt_of_off (h : ∀ x, s.timing j d = some x → x.timeout = ⟨false, .none⟩) :
    s.armedAt j d = false := by
  rw [Bool.eq_false_iff, Ne, armedAt_eq_true_iff]
  rintro ⟨x, hx, hactive⟩
  rw [h x hx] at hactive
  cases hactive

/-- The nodes of an event that is in the hands of no function stay where they are. -/
theorem Turn.armedAt_eq (h : s.Turn a s' j) (hT : s.Timed) (hj : s.subject a ≠ some j) (d : Dir) :
    s'.armedAt j d = s.armedAt j d := by
  cases h with
  | kept h => rw [armedAt, armedAt, h d]
  | created hnone hoff =>
    rw [armedAt_of_off (hoff d), armedAt, hnone d]
    rfl
  | call ha | expired ha | freed ha => exact absurd (by rw [ha]; rfl) hj
  | dispatched ha hb => exact absurd (by rw [ha, subject, hb]; rfl) hj
  | released ha hdeleted hnone =>
    rw [armedAt, hnone d]
    refine (armedAt_of_off fun x hx ↦ ?_).symm
    rcases hT j d x hx with hoff | ⟨_, _, _, _, hlive⟩
    · exact hoff
    · rw [hdeleted d x hx] at hlive
      cases hlive

theorem armedAt_timeoutFires {i : ℕ} {e : Dir} {sys : Sys} (hT : s.Timed)
    (h : s.step (.timeoutFires i e sys) = some s') :
    s'.armedAt i e = false ∧ ∀ d, d ≠ e → s'.armedAt i d = s.armedAt i d := by
  cases step_eq_some h with
  | timeoutFires ho hp hactive =>
    obtain ⟨hoff, hother⟩ := timing_timeoutFires hT ho hactive
    refine ⟨armedAt_of_off hoff, fun d hd ↦ ?_⟩
    rw [armedAt, armedAt, hother d hd]

theorem Turn.arms (h : s.Turn a s' j) (hoff : s.armedAt j d = false)
    (hon : s'.armedAt j d = true) : ∃ c sys, a = .tcp j c sys ∧ c.Arms d sys := by
  obtain ⟨x', hx', hactive⟩ := armedAt_eq_true_iff.mp hon
  have hkept : s'.timing j d ≠ s.timing j d := by
    intro heq
    rw [armedAt, heq] at hon
    rw [armedAt, hon] at hoff
    cases hoff
  have hoff' : x'.timeout ≠ ⟨false, .none⟩ := by
    intro heq
    rw [heq] at hactive
    cases hactive
  have hchanged : ∀ {arms : Prop}, (∃ x y, s.timing j d = some x ∧ s'.timing j d = some y ∧
      Changed d arms x y) → arms := by
    rintro arms ⟨x, y, hx, hy, hc⟩
    obtain rfl := Option.some.inj (hx'.symm.trans hy)
    refine hc.arms_of_active ?_ hactive
    rw [armedAt, hx] at hoff
    exact hoff
  cases h with
  | kept h => exact absurd (h d) hkept
  | created _ hnew => exact absurd (hnew d x' hx') hoff'
  | call ha h => exact ⟨_, _, ha, hchanged (h d)⟩
  | @expired e _ _ _ hexpired h =>
    by_cases hd : d = e
    · subst hd
      exact absurd (hexpired x' hx') hoff'
    · exact absurd (h d hd) hkept
  | dispatched _ _ h => exact (hchanged (h d)).elim
  | freed _ hfreed => exact absurd (hfreed d x' hx') hoff'
  | released _ _ hnone =>
    rw [hnone d] at hx'
    cases hx'

end IoLoop

end Nanoev
