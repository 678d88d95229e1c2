import Nanoev.Io.TcpOutcome
import Nanoev.Iocp.Tcp

/-!
# What the functions of a TCP event can do on a completion port

For each function, the list of its outcomes. The four operations share one protocol: the flag of the
direction, the callback of the operation and the timeout of the direction are set together when it
is started, and the packet clears them together. So the outcomes of a packet and of a timeout are
stated for the kind of operation that a direction is used for (`kindOf`), which connect and accept
share with write and read.
-/

namespace Nanoev.Iocp

open Tcp (Armed opens)

def callback (t : Tcp) : OpKind → Option ℕ
  | .connect => t.onConnect
  | .accept => t.onAccept
  | .read => t.onRead
  | .write => t.onWrite

def kindOf (connected : Bool) : Dir → OpKind
  | .read => if connected then .read else .accept
  | .write => if connected then .write else .connect

def timeoutOf : TcpCall → Option Timeval
  | .connect _ timeout _ => timeout
  | .accept timeout _ _ => timeout
  | .write _ timeout _ => timeout
  | .read _ timeout _ => timeout
  | _ => none

/-! ## Calls of the client

A call is refused, fails and leaves the event in the error state, or starts its operation. When
`tcp_timeout_add` fails after the system has taken the operation over, the call fails although there
will be a packet (`lost`). -/

/-- What a call on `t` can do; `op` is the number of the call. -/
inductive CallOutcome (t : Tcp) (op : ℕ) (sys : Sys) (c : TcpCall) :
    Tcp → List IoEffect → RetCode → Prop
  | refused {ret} : CallOutcome t op sys c t [] ret
  | failed {k m slot b cr cw τr τw e effects}
      (hk : k = t.sock ∨ t.sock = none ∧ opens c = true)
      (hτr : τr = t.timeoutRead ∨ τr = ⟨false, .none⟩ ∧ t.reading = false)
      (hτw : τw = t.timeoutWrite ∨ τw = ⟨false, .none⟩ ∧ t.sock = none ∧ opens c = true)
      (hc : opens c = true ∨ t.sock ≠ none) (hsubmit : ∀ d, .submit d ∉ effects) :
    CallOutcome t op sys c
      { t with
        sock := k, reactorEvents := m, readSlot := slot, bufWrite := b, ctxRead := cr,
        ctxWrite := cw
        timeoutRead := τr, timeoutWrite := τw, error := true, errorCode := e }
      effects .fail
  | listened {k m effects} (hc : opens c = true) (hsock : t.sock = none)
      (hsubmit : ∀ d, .submit d ∉ effects) :
    CallOutcome t op sys c { t with sock := some k, reactorEvents := m, listening := true } effects
      .success
  | connectStarted {k m τ effects} (hc : opens c = true) (hsock : t.sock = none)
      (hτ : Armed t.timeoutWrite τ .connect) (hsubmit : ∀ d, .submit d ∈ effects ↔ d = .write) :
    CallOutcome t op sys c
      { t with
        sock := some k, reactorEvents := m, timeoutWrite := τ, writing := true
        onConnect := some op }
      effects .success
  | acceptStarted {slot cr τ effects} (hsock : t.sock ≠ none) (herror : t.error = false)
      (hlistening : t.listening = true) (hreading : t.reading = false)
      (hτ : Armed t.timeoutRead τ .accept) (hsubmit : ∀ d, .submit d ∈ effects ↔ d = .read) :
    CallOutcome t op sys c
      { t with
        readSlot := slot, ctxRead := cr, timeoutRead := τ, reading := true, onAccept := some op }
      effects .success
  | readStarted {slot cr τ effects} (hsock : t.sock ≠ none) (herror : t.error = false)
      (hconnected : t.connected = true) (hreading : t.reading = false)
      (hτ : Armed t.timeoutRead τ .read) (hsubmit : ∀ d, .submit d ∈ effects ↔ d = .read) :
    CallOutcome t op sys c
      { t with
        readSlot := slot, ctxRead := cr, timeoutRead := τ, reading := true, onRead := some op }
      effects .success
  | writeStarted {b cw τ effects} (hsock : t.sock ≠ none) (herror : t.error = false)
      (hconnected : t.connected = true) (hwriting : t.writing = false)
      (hτ : Armed t.timeoutWrite τ .write) (hsubmit : ∀ d, .submit d ∈ effects ↔ d = .write) :
    CallOutcome t op sys c
      { t with
        bufWrite := b, ctxWrite := cw, timeoutWrite := τ, writing := true, onWrite := some op }
      effects .success
  /-- The system has taken over the context, and the call fails. -/
  | lost {t' effects d} (hsubmit : .submit d ∈ effects) (htimeout : timeoutOf c ≠ none)
      (hτ : (t.timeout d).active = true ∨ sys.timerNode = false)
      (hidle : t.flag d = false ∨ opens c = true ∧ t.sock = none) :
    CallOutcome t op sys c t' effects .fail

namespace CallOutcome

variable {t t' : Tcp} {op : ℕ} {sys : Sys} {c : TcpCall} {effects : List IoEffect} {ret : RetCode}

theorem deleted_eq (h : CallOutcome t op sys c t' effects ret)
    (hreported : ret = .success ∨ ∀ d, .submit d ∉ effects) : t'.deleted = t.deleted := by
  cases h with
  | lost hsubmit =>
    rcases hreported with hret | hnone
    · cases hret
    · exact absurd hsubmit (hnone _)
  | _ => rfl

theorem submit_unique (h : CallOutcome t op sys c t' effects ret)
    (hreported : ret = .success ∨ ∀ d, .submit d ∉ effects) {d e : Dir} (hd : .submit d ∈ effects)
    (he : .submit e ∈ effects) : d = e := by
  cases h with
  | refused => cases hd
  | failed _ _ _ _ hsubmit | listened _ _ hsubmit => exact absurd hd (hsubmit d)
  | connectStarted _ _ _ hsubmit | acceptStarted _ _ _ _ _ hsubmit
  | readStarted _ _ _ _ _ hsubmit | writeStarted _ _ _ _ _ hsubmit =>
    rw [(hsubmit d).mp hd, (hsubmit e).mp he]
  | lost hsubmit =>
    rcases hreported with hret | hnone
    · cases hret
    · exact absurd hsubmit (hnone _)

end CallOutcome

section

variable {t : Tcp} {op : ℕ} {sys : Sys} {fresh : Fresh}

theorem submit_not_mem_assertEffect (d : Dir) (a : Bool) : IoEffect.submit d ∉ assertEffect a := by
  cases a <;> simp [assertEffect]

theorem submit_mem_iff {d e : Dir} {fd : ℕ} {a : Bool} :
    IoEffect.submit d ∈ [IoEffect.opened fd] ++ assertEffect a ++ [.submit e] ↔ d = e := by
  have := submit_not_mem_assertEffect d a
  simp [this]

theorem submit_not_mem {fd : ℕ} {a : Bool} (d : Dir) :
    IoEffect.submit d ∉ [IoEffect.opened fd] ++ assertEffect a := by
  have := submit_not_mem_assertEffect d a
  simp [this]

theorem registerProactor_cases (t : Tcp) (sys : Sys) :
    ∃ m ok, registerProactor t sys =
      ({ t with reactorEvents := m }, assertEffect (t.reactorEvents = .empty), ok) := by
  unfold registerProactor
  split
  · exact ⟨_, true, rfl⟩
  · exact ⟨t.reactorEvents, false, rfl⟩

theorem tcpTimeoutAdd_cases (τ : TcpTimeout) (o : TcpTimeoutOp) (mem : Bool) :
    (Tcp.tcpTimeoutAdd τ o mem = (⟨true, o⟩, true) ∧ τ.active = false) ∨
      ∃ τ', Tcp.tcpTimeoutAdd τ o mem = (τ', false) ∧ (τ.active = true ∨ mem = false) := by
  unfold Tcp.tcpTimeoutAdd
  split_ifs with hactive hmem
  · exact .inr ⟨_, rfl, .inl hactive⟩
  · exact .inl ⟨rfl, Bool.eq_false_of_not_eq_true hactive⟩
  · exact .inr ⟨_, rfl, .inr (Bool.eq_false_of_not_eq_true hmem)⟩

theorem connect_outcome (addr : Bool) (timeout : Option Timeval) :
    let r := nanoevTcpConnect t addr timeout (some op) sys fresh
    CallOutcome t op sys (.connect addr timeout true) r.1 r.2.1 r.2.2 := by
  unfold nanoevTcpConnect createTcpSocket
  by_cases hargs : addr = false ∨ some op = none
  · rw [if_pos hargs]
    exact .refused
  rw [if_neg hargs]
  by_cases hdelay : timeout.any invalidDelay = true
  · rw [if_pos hdelay]
    exact .refused
  rw [if_neg hdelay]
  by_cases hsock : t.sock.isSome = true
  · rw [if_pos hsock]
    exact .refused
  rw [if_neg hsock]
  rw [Option.not_isSome_iff_eq_none] at hsock
  have hdel : ∀ τ : TcpTimeout, (if timeout.isSome then Tcp.tcpTimeoutDel else τ) = τ ∨
      (if timeout.isSome then Tcp.tcpTimeoutDel else τ) = ⟨false, .none⟩ ∧ t.sock = none ∧
        opens (.connect addr timeout true) = true := by
    intro τ
    cases timeout with
    | none => exact .inl rfl
    | some _ => exact .inr ⟨rfl, hsock, rfl⟩
  cases sys.socket with
  | some e => exact .failed (.inl rfl) (.inl rfl) (hdel _) (.inl rfl) (by simp)
  | none =>
    obtain ⟨m, ok, hreg⟩ := registerProactor_cases { t with sock := some ⟨fresh.fd, .empty⟩ } sys
    simp only [hreg]
    have hfailed : ∀ e, CallOutcome t op sys (.connect addr timeout true)
        (Tcp.connectError { t with sock := some ⟨fresh.fd, .empty⟩, reactorEvents := m }
          timeout.isSome e)
        ([.opened fresh.fd] ++ assertEffect (t.reactorEvents = .empty)) .fail :=
      fun e ↦ .failed (.inr ⟨hsock, rfl⟩) (.inl rfl) (hdel _) (.inl rfl) submit_not_mem
    cases ok with
    | false => exact hfailed _
    | true =>
      cases sys.bind with
      | some e => exact hfailed _
      | none =>
        cases sys.connect with
        | failed e => exact hfailed _
        | done => exact .connectStarted rfl hsock (.inl rfl) fun d ↦ submit_mem_iff
        | inProgress =>
          cases timeout with
          | none => exact .connectStarted rfl hsock (.inl rfl) fun d ↦ submit_mem_iff
          | some after =>
            rcases tcpTimeoutAdd_cases t.timeoutWrite .connect sys.timerNode with
              ⟨hadd, hτ⟩ | ⟨τ, hadd, hτ⟩
            · simp only [hadd]
              exact .connectStarted rfl hsock (.inr ⟨hτ, rfl⟩) fun d ↦ submit_mem_iff
            · simp only [hadd]
              exact .lost (d := .write) (submit_mem_iff.mpr rfl) (by simp [timeoutOf]) hτ
                (.inr ⟨rfl, hsock⟩)

theorem listen_outcome (localAddr : Bool) :
    let r := nanoevTcpListen t localAddr sys fresh
    CallOutcome t op sys (.listen localAddr) r.1 r.2.1 r.2.2 := by
  unfold nanoevTcpListen createTcpSocket
  by_cases haddr : localAddr = false
  · rw [if_pos haddr]
    exact .refused
  rw [if_neg haddr]
  by_cases hsock : t.sock.isSome = true
  · rw [if_pos hsock]
    exact .refused
  rw [if_neg hsock]
  rw [Option.not_isSome_iff_eq_none] at hsock
  cases sys.socket with
  | some e => exact .failed (.inl rfl) (.inl rfl) (.inl rfl) (.inl rfl) (by simp)
  | none =>
    obtain ⟨m, ok, hreg⟩ := registerProactor_cases { t with sock := some ⟨fresh.fd, .empty⟩ } sys
    simp only [hreg]
    have hfailed : ∀ e, CallOutcome t op sys (.listen localAddr)
        (Tcp.setError { t with sock := some ⟨fresh.fd, .empty⟩, reactorEvents := m } e)
        ([.opened fresh.fd] ++ assertEffect (t.reactorEvents = .empty)) .fail :=
      fun e ↦ .failed (.inr ⟨hsock, rfl⟩) (.inl rfl) (.inl rfl) (.inl rfl) submit_not_mem
    cases ok with
    | false => exact hfailed _
    | true =>
      cases sys.bind with
      | some e => exact hfailed _
      | none =>
        cases sys.listen with
        | some e => exact hfailed _
        | none =>
          cases sys.memAlloc with
          | false => exact hfailed _
          | true => exact .listened rfl hsock submit_not_mem

theorem accept_outcome (timeout : Option Timeval) (alloc : Bool) :
    let r := nanoevTcpAccept t timeout (some op) alloc sys fresh
    CallOutcome t op sys (.accept timeout true alloc) r.1 r.2.1 r.2.2 := by
  unfold nanoevTcpAccept
  rw [if_neg (Option.some_ne_none op)]
  by_cases hdelay : timeout.any invalidDelay = true
  · rw [if_pos hdelay]
    exact .refused
  rw [if_neg hdelay]
  by_cases hready : t.sock = none ∨ t.error ∨ t.deleted ∨ !t.listening ∨ t.reading
  · rw [if_pos hready]
    exact .refused
  rw [if_neg hready]
  simp only [not_or, Bool.not_eq_true, Bool.not_eq_false'] at hready
  obtain ⟨hsock, herror, -, hlistening, hreading⟩ := hready
  have hdel : ∀ τ : TcpTimeout, (if timeout.isSome then Tcp.tcpTimeoutDel else τ) = τ ∨
      (if timeout.isSome then Tcp.tcpTimeoutDel else τ) = ⟨false, .none⟩ ∧ t.reading = false := by
    intro τ
    cases timeout with
    | none => exact .inl rfl
    | some _ => exact .inr ⟨rfl, hreading⟩
  have hstart : ∀ d, IoEffect.submit d ∈ [IoEffect.opened fresh.fd, .submit .read] ↔
      d = .read := by simp
  cases sys.socket with
  | some e => exact .failed (.inl rfl) (hdel _) (.inl rfl) (.inr hsock) (by simp)
  | none =>
    cases sys.accept with
    | failed e => exact .failed (.inl rfl) (hdel _) (.inl rfl) (.inr hsock) (by simp)
    | done => exact .acceptStarted hsock herror hlistening hreading (.inl rfl) hstart
    | wouldBlock =>
      cases timeout with
      | none => exact .acceptStarted hsock herror hlistening hreading (.inl rfl) hstart
      | some after =>
        rcases tcpTimeoutAdd_cases t.timeoutRead .accept sys.timerNode with
          ⟨hadd, hτ⟩ | ⟨τ, hadd, hτ⟩
        · simp only [hadd]
          exact .acceptStarted hsock herror hlistening hreading (.inr ⟨hτ, rfl⟩) hstart
        · simp only [hadd]
          exact .lost (d := .read) (by simp) (by simp [timeoutOf]) hτ (.inl hreading)

theorem write_outcome (b : IoBuf) (timeout : Option Timeval) :
    let r := nanoevTcpWrite t b timeout (some op) sys
    CallOutcome t op sys (.write b timeout true) r.1 r.2.1 r.2.2 := by
  unfold nanoevTcpWrite
  by_cases hargs : b.buf = 0 ∨ b.len = 0 ∨ some op = none
  · rw [if_pos hargs]
    exact .refused
  rw [if_neg hargs]
  by_cases hdelay : timeout.any invalidDelay = true
  · rw [if_pos hdelay]
    exact .refused
  rw [if_neg hdelay]
  by_cases hready : t.notReady ∨ t.writing
  · rw [if_pos hready]
    exact .refused
  rw [if_neg hready]
  simp only [not_or, Bool.not_eq_true, Tcp.ready_iff] at hready
  obtain ⟨⟨hsock, herror, -, hconnected⟩, hwriting⟩ := hready
  cases sys.io with
  | failed e => exact .failed (.inl rfl) (.inl rfl) (.inl rfl) (.inr hsock) (by simp)
  | done n => exact .writeStarted hsock herror hconnected hwriting (.inl rfl) (by simp)
  | wouldBlock =>
    cases timeout with
    | none => exact .writeStarted hsock herror hconnected hwriting (.inl rfl) (by simp)
    | some after =>
      rcases tcpTimeoutAdd_cases t.timeoutWrite .write sys.timerNode with
        ⟨hadd, hτ⟩ | ⟨τ, hadd, hτ⟩
      · simp only [hadd]
        exact .writeStarted hsock herror hconnected hwriting (.inr ⟨hτ, rfl⟩) (by simp)
      · simp only [hadd]
        exact .lost (d := .write) (by simp) (by simp [timeoutOf]) hτ (.inl hwriting)

theorem read_outcome (b : IoBuf) (timeout : Option Timeval) :
    let r := nanoevTcpRead t b timeout (some op) sys
    CallOutcome t op sys (.read b timeout true) r.1 r.2.1 r.2.2 := by
  unfold nanoevTcpRead
  by_cases hargs : b.buf = 0 ∨ b.len = 0 ∨ some op = none
  · rw [if_pos hargs]
    exact .refused
  rw [if_neg hargs]
  by_cases hdelay : timeout.any invalidDelay = true
  · rw [if_pos hdelay]
    exact .refused
  rw [if_neg hdelay]
  by_cases hready : t.notReady ∨ t.reading
  · rw [if_pos hready]
    exact .refused
  rw [if_neg hready]
  simp only [not_or, Bool.not_eq_true, Tcp.ready_iff] at hready
  obtain ⟨⟨hsock, herror, -, hconnected⟩, hreading⟩ := hready
  cases sys.io with
  | failed e => exact .failed (.inl rfl) (.inl rfl) (.inl rfl) (.inr hsock) (by simp)
  | _ =>
    cases timeout with
    | none => exact .readStarted hsock herror hconnected hreading (.inl rfl) (by simp)
    | some after =>
      rcases tcpTimeoutAdd_cases t.timeoutRead .read sys.timerNode with
        ⟨hadd, hτ⟩ | ⟨τ, hadd, hτ⟩
      · simp only [hadd]
        exact .readStarted hsock herror hconnected hreading (.inr ⟨hτ, rfl⟩) (by simp)
      · simp only [hadd]
        exact .lost (d := .read) (by simp) (by simp [timeoutOf]) hτ (.inl hreading)

theorem systemCall_outcome {c : TcpCall} {refused : Bool}
    (hready : refused = false → t.sock ≠ none) :
    let r := t.systemCall refused sys
    CallOutcome t op sys c r.1 r.2.1 r.2.2 := by
  unfold Tcp.systemCall
  cases refused with
  | true => exact .refused
  | false =>
    cases sys.other with
    | some e => exact .failed (.inl rfl) (.inl rfl) (.inl rfl) (.inr (hready rfl)) (by simp)
    | none => exact .refused

theorem run_outcome (c : TcpCall) :
    let r := run c t op sys fresh
    CallOutcome t op sys c r.1 r.2.1 r.2.2 := by
  have hrefused : ∀ {c}, run c t op sys fresh = (t, [], .invalidArg) →
      let r := run c t op sys fresh
      CallOutcome t op sys c r.1 r.2.1 r.2.2 := by
    intro c h
    rw [h]
    exact .refused
  cases c with
  | connect addr timeout callback =>
    cases callback with
    | true => exact connect_outcome addr timeout
    | false => exact hrefused (if_pos (.inr rfl))
  | listen localAddr => exact listen_outcome localAddr
  | accept timeout callback alloc =>
    cases callback with
    | true => exact accept_outcome timeout alloc
    | false => exact hrefused rfl
  | write b timeout callback =>
    cases callback with
    | true => exact write_outcome b timeout
    | false => exact hrefused (if_pos (.inr (.inr rfl)))
  | read b timeout callback =>
    cases callback with
    | true => exact read_outcome b timeout
    | false => exact hrefused (if_pos (.inr (.inr rfl)))
  | shutdown how =>
    cases how with
    | false => exact hrefused rfl
    | true => exact systemCall_outcome fun h ↦ (Tcp.ready_iff.mp h).1
  | addr present isLocal =>
    cases present with
    | false => exact hrefused rfl
    | true => exact systemCall_outcome fun h ↦ by simp_all
  | setOption valid =>
    cases valid with
    | false => exact hrefused rfl
    | true => exact systemCall_outcome fun h ↦ by simp_all

end

/-! ## Packets and timeouts

A packet clears the flag and the timeout of its direction and calls the callback, if it is still
stored. A timeout calls the callback and closes the socket, and leaves the flag to the packet. -/

def other : Dir → Dir
  | .read => .write
  | .write => .read

/-- The entry for an operation in `timeout->op`. -/
def timeoutOp : OpKind → TcpTimeoutOp
  | .connect => .connect
  | .accept => .accept
  | .read => .read
  | .write => .write

def Taken (t t' : Tcp) (k : OpKind) : Prop :=
  ∀ j, callback t' j = if j = k then none else callback t j

structure Fledged (t : Tcp) : Prop where
  flag : ∀ d, t.flag d = false
  callback : ∀ k, callback t k = none
  timeout : ∀ d, (t.timeout d).active = false
  sock : t.sock ≠ none
  connected : t.connected = true
  listening : t.listening = false
  deleted : t.deleted = false

structure Cleared (t : Tcp) (d : Dir) (t' : Tcp) : Prop where
  flag : t'.flag d = false
  taken : Taken t t' (kindOf t.connected d)
  timeout : (t'.timeout d).active = false
  flag_other : t'.flag (other d) = t.flag (other d)
  timeout_other : t'.timeout (other d) = t.timeout (other d)
  kept : (t'.deleted, t'.listening, t'.sock) = (t.deleted, t.listening, t.sock)
  connected : t'.connected = t.connected ∨ t.connected = false ∧ t.listening = false
  error : t.error = true → t'.error = true

/-- It comes with the invocation of the callback that is still there. -/
structure Completed (t : Tcp) (d : Dir) (t' : Tcp) (calls : List Call) : Prop
    extends Cleared t d t' where
  late : callback t (kindOf t.connected d) = none →
    calls = [] ∧ t'.errorCode = socketTimeoutError.1
  done : ∀ op, callback t (kindOf t.connected d) = some op →
    calls.map Call.op = if t.deleted then [] else [op]

theorem Cleared.completed_late {t t' : Tcp} {d : Dir} (h : Cleared t d t')
    (hcb : callback t (kindOf t.connected d) = none)
    (herror : t'.errorCode = socketTimeoutError.1) : Completed t d t' [] where
  toCleared := h
  late := fun _ ↦ ⟨rfl, herror⟩
  done := by
    intro op hop
    rw [hcb] at hop
    cases hop

theorem Cleared.completed_done {t t' : Tcp} {d : Dir} {calls : List Call}
    (h : Cleared t d t') (op : ℕ) (hcb : callback t (kindOf t.connected d) = some op)
    (hcalls : calls.map Call.op = if t.deleted then [] else [op]) : Completed t d t' calls where
  toCleared := h
  late := by
    intro hnone
    rw [hcb] at hnone
    cases hnone
  done := by
    intro op' hop
    obtain rfl := Option.some.inj (hcb.symm.trans hop)
    exact hcalls

/-- What the timeout of operation `op` of kind `k` leaves behind, and the callbacks that are
invoked. -/
structure Expired (t : Tcp) (d : Dir) (k : OpKind) (op : ℕ) (t' : Tcp) (calls : List Call) :
    Prop where
  flag : ∀ e, t'.flag e = t.flag e
  taken : Taken t t' k
  timeout : (t'.timeout d).active = false
  timeout_other : t'.timeout (other d) = t.timeout (other d)
  kept : (t'.deleted, t'.listening, t'.connected) = (t.deleted, t.listening, t.connected)
  sock : t'.sock = none
  error : t'.error = true ∧ t'.errorCode = socketTimeoutError.1
  called : calls.map Call.op = if t.deleted then [] else [op]

section

variable {t : Tcp} {sys : Sys} {fresh : Fresh}

theorem call?_closeAccepted (fd : Option ℕ) :
    (Tcp.closeAccepted fd).filterMap IoEffect.call? = [] := by
  cases fd <;> rfl

/-- `tcp_alloc_client` invokes no callback, and makes an event that is ready for use. -/
theorem tcpAllocClient_spec (u fd : Option ℕ) (sys : Sys) :
    ((tcpAllocClient u fd sys).2.filterMap IoEffect.call? = []) ∧
      ∀ x, (tcpAllocClient u fd sys).1 = some x → Fledged x := by
  have hnone : ∀ x : Tcp, none = some x → Fledged x := fun x hx ↦
    absurd hx.symm (Option.some_ne_none x)
  unfold tcpAllocClient registerProactor
  cases sys.memAlloc with
  | false => exact ⟨rfl, hnone⟩
  | true =>
    cases fd with
    | none => exact ⟨rfl, hnone⟩
    | some fd =>
      cases sys.epollCtl with
      | some e => exact ⟨rfl, hnone⟩
      | none =>
        refine ⟨rfl, fun x hx ↦ ?_⟩
        obtain rfl := Option.some.inj hx
        refine ⟨?_, ?_, ?_, Option.some_ne_none _, rfl, rfl, rfl⟩
        · rintro (_ | _) <;> rfl
        · rintro (_ | _ | _ | _) <;> rfl
        · rintro (_ | _) <;> rfl

theorem op_of_calls {l : List IoEffect} (h : l.filterMap IoEffect.call? = []) (c : Call) :
    ((l ++ [IoEffect.call c]).filterMap IoEffect.call?).map Call.op = [c.op] := by
  rw [List.filterMap_append, h]
  rfl

theorem acceptClient_spec (alloc : Bool) (fd : Option ℕ) (status : ℤ) (op : ℕ) (sys : Sys)
    (fresh : Fresh) :
    ((acceptClient alloc fd status op sys fresh).2.filterMap IoEffect.call?).map Call.op = [op] ∧
      ∀ x, (acceptClient alloc fd status op sys fresh).1 = some x → Fledged x := by
  have hnone : ∀ x : Tcp, none = some x → Fledged x := fun x hx ↦
    absurd hx.symm (Option.some_ne_none x)
  have halloc : (if alloc then [IoEffect.allocUserdata fresh.userdata] else []).filterMap
      IoEffect.call? = [] := by cases alloc <;> rfl
  have hfree : (if alloc then [IoEffect.freeUserdata fresh.userdata] else []).filterMap
      IoEffect.call? = [] := by cases alloc <;> rfl
  unfold acceptClient
  by_cases hstatus : status ≠ 0
  · rw [if_pos hstatus]
    exact ⟨op_of_calls (call?_closeAccepted fd) _, hnone⟩
  rw [if_neg hstatus]
  by_cases huser : (alloc && !sys.userdata) = true
  · rw [if_pos huser]
    exact ⟨op_of_calls (call?_closeAccepted fd) _, hnone⟩
  rw [if_neg huser]
  have hspec := tcpAllocClient_spec (if alloc then some fresh.userdata else none) fd sys
  dsimp only
  revert hspec
  rcases tcpAllocClient (if alloc then some fresh.userdata else none) fd sys with ⟨_ | x, effects⟩
  · rintro ⟨hcalls, -⟩
    have hcalls : effects.filterMap IoEffect.call? = [] := hcalls
    refine ⟨op_of_calls ?_ _, hnone⟩
    rw [List.filterMap_append, List.filterMap_append, List.filterMap_append, halloc, hcalls,
      call?_closeAccepted, hfree]
    rfl
  · rintro ⟨hcalls, hclient⟩
    have hcalls : effects.filterMap IoEffect.call? = [] := hcalls
    refine ⟨op_of_calls ?_ _, hclient⟩
    rw [List.filterMap_append, halloc, hcalls]
    rfl

theorem callUnless_op (deleted : Bool) (c : Call) :
    ((if deleted then [] else [IoEffect.call c]).filterMap IoEffect.call?).map Call.op =
      if deleted then [] else [c.op] := by
  cases deleted <;> rfl

theorem taken_of_eq {t' : Tcp} {k k' : OpKind} (hk : k' = k)
    (h : ∀ j, callback t' j = if j = k then none else callback t j) : Taken t t' k' := by
  rw [hk]
  exact h

theorem readCompleted_spec (hflag : t.reading = true) (hconnected : t.connected = true)
    (status : ℤ) (bytes : ℕ) :
    let r := readCompleted t status bytes
    Completed t .read r.1 (r.2.filterMap IoEffect.call?) := by
  have hkind : kindOf t.connected .read = .read := by rw [kindOf, hconnected, if_pos rfl]
  unfold readCompleted
  rw [if_neg (by rw [hflag]; decide)]
  cases hcb : t.onRead with
  | none =>
    refine Cleared.completed_late ⟨rfl, taken_of_eq hkind ?_, rfl, rfl, rfl, rfl, .inl rfl, id⟩
      (by rw [hkind]; exact hcb) rfl
    rintro (_ | _ | _ | _) <;> rfl
  | some op =>
    refine Cleared.completed_done ⟨rfl, taken_of_eq hkind ?_, rfl, rfl, rfl, rfl, .inl rfl, id⟩ op
      (by rw [hkind]; exact hcb) (callUnless_op _ _)
    rintro (_ | _ | _ | _) <;> rfl

theorem writeCompleted_spec (hflag : t.writing = true) (hconnected : t.connected = true)
    (status : ℤ) (bytes : ℕ) :
    let r := writeCompleted t status bytes
    Completed t .write r.1 (r.2.filterMap IoEffect.call?) := by
  have hkind : kindOf t.connected .write = .write := by rw [kindOf, hconnected, if_pos rfl]
  unfold writeCompleted
  rw [if_neg (by rw [hflag]; decide)]
  cases hcb : t.onWrite with
  | none =>
    refine Cleared.completed_late ⟨rfl, taken_of_eq hkind ?_, rfl, rfl, rfl, rfl, .inl rfl, id⟩
      (by rw [hkind]; exact hcb) rfl
    rintro (_ | _ | _ | _) <;> rfl
  | some op =>
    refine Cleared.completed_done ⟨rfl, taken_of_eq hkind ?_, rfl, rfl, rfl, rfl, .inl rfl, id⟩ op
      (by rw [hkind]; exact hcb) (callUnless_op _ _)
    rintro (_ | _ | _ | _) <;> rfl

theorem acceptCompleted_spec (hflag : t.reading = true) (hconnected : t.connected = false)
    (status : ℤ) (sys : Sys) (fresh : Fresh) :
    let r := acceptCompleted t status sys fresh
    Completed t .read r.1 (r.2.2.filterMap IoEffect.call?) ∧ ∀ x, r.2.1 = some x → Fledged x := by
  have hkind : kindOf t.connected .read = .accept := by rw [kindOf, hconnected, if_neg (by decide)]
  have hnone : ∀ x : Tcp, none = some x → Fledged x := fun x hx ↦
    absurd hx.symm (Option.some_ne_none x)
  have hcleared : ∀ slot e, Cleared t .read
      { t with
        reading := false, onAccept := none, timeoutRead := Tcp.tcpTimeoutDel, readSlot := slot
        errorCode := e } := by
    refine fun slot e ↦ ⟨rfl, taken_of_eq hkind ?_, rfl, rfl, rfl, rfl, .inl rfl, id⟩
    rintro (_ | _ | _ | _) <;> rfl
  unfold acceptCompleted
  dsimp only
  rw [if_neg (by rw [hflag]; decide)]
  cases hcb : t.onAccept with
  | none =>
    refine ⟨?_, hnone⟩
    rw [call?_closeAccepted]
    exact (hcleared _ _).completed_late (by rw [hkind]; exact hcb) rfl
  | some op =>
    by_cases hdeleted : t.deleted = true
    · simp only [if_pos hdeleted]
      refine ⟨?_, hnone⟩
      rw [call?_closeAccepted]
      exact (hcleared _ _).completed_done op (by rw [hkind]; exact hcb)
        (by rw [if_pos hdeleted]; rfl)
    · simp only [if_neg hdeleted]
      obtain ⟨hcalls, hclient⟩ := acceptClient_spec t.readSlot.allocUserdata
        (socketAccept t.readSlot) status op sys fresh
      exact ⟨(hcleared _ _).completed_done op (by rw [hkind]; exact hcb)
        (by rw [if_neg hdeleted]; exact hcalls), hclient⟩

theorem connectCompleted_spec (hflag : t.writing = true) (hconnected : t.connected = false)
    (hlistening : t.listening = false) (status : ℤ) :
    let r := connectCompleted t status
    Completed t .write r.1 (r.2.filterMap IoEffect.call?) := by
  have hkind : kindOf t.connected .write = .connect := by
    rw [kindOf, hconnected, if_neg (by decide)]
  have hcleared : ∀ b e, Cleared t .write
      { t with
        writing := false, onConnect := none, timeoutWrite := Tcp.tcpTimeoutDel, connected := b
        errorCode := e } := by
    refine fun b e ↦ ⟨rfl, taken_of_eq hkind ?_, rfl, rfl, rfl, rfl, .inr ⟨hconnected, hlistening⟩,
      id⟩
    rintro (_ | _ | _ | _) <;> rfl
  unfold connectCompleted
  rw [if_neg (by rw [hflag]; decide)]
  cases hcb : t.onConnect with
  | none => exact (hcleared _ _).completed_late (by rw [hkind]; exact hcb) rfl
  | some op =>
    by_cases hdeleted : t.deleted = true
    · simp only [if_pos hdeleted]
      exact (hcleared _ _).completed_done op (by rw [hkind]; exact hcb)
        (by rw [if_pos hdeleted]; rfl)
    · simp only [if_neg hdeleted]
      by_cases hstatus : status = 0
      · simp only [if_pos hstatus]
        exact (hcleared _ _).completed_done op (by rw [hkind]; exact hcb)
          (by rw [if_neg hdeleted]; rfl)
      · simp only [if_neg hstatus]
        exact (hcleared _ _).completed_done op (by rw [hkind]; exact hcb)
          (by rw [if_neg hdeleted]; rfl)

/-- The operations that an event can have outstanding: a listener only accepts, and before it is
connected an event only connects. -/
def Proper (t : Tcp) (d : Dir) : Prop :=
  t.connected = true ∨ t.listening = true ∧ d = .read ∨ t.listening = false ∧ d = .write

theorem Completed.of_noted {t' : Tcp} {d : Dir} {calls : List Call} {status : ℤ}
    (h : Completed (t.setError status) d t' calls) : Completed t d t' calls where
  flag := h.flag
  taken := fun j ↦ by
    rw [h.taken j]
    cases j <;> rfl
  timeout := h.timeout
  flag_other := h.flag_other
  timeout_other := h.timeout_other
  kept := h.kept
  connected := h.connected
  error := fun _ ↦ h.error rfl
  late := fun hcb ↦ h.late (by rw [← hcb]; rfl)
  done := h.done

/-- **A packet completes its operation.** -/
theorem tcpProactorCallback_spec {d : Dir} (hflag : t.flag d = true) (hproper : Proper t d) :
    let r := tcpProactorCallback t d sys fresh
    Completed t d r.1 (r.2.2.filterMap IoEffect.call?) ∧ ∀ x, r.2.1 = some x → Fledged x := by
  have hnone : ∀ x : Tcp, none = some x → Fledged x := fun x hx ↦
    absurd hx.symm (Option.some_ne_none x)
  unfold tcpProactorCallback
  dsimp only
  generalize hu : (if (t.ctx d).status ≠ 0 then t.setError (t.ctx d).status else t) = u
  have hnoted : u = t ∨ u = t.setError (t.ctx d).status := by
    rw [← hu]
    exact (ite_eq_or_eq ..).symm
  have hflag' : u.flag d = true := by rcases hnoted with rfl | rfl <;> exact hflag
  have hproper' : Proper u d := by rcases hnoted with rfl | rfl <;> exact hproper
  have hback : ∀ {t' calls}, Completed u d t' calls → Completed t d t' calls := by
    intro t' calls h
    rcases hnoted with rfl | rfl
    · exact h
    · exact h.of_noted
  by_cases hconnected : u.connected = true
  · rw [if_pos hconnected]
    cases d with
    | read => exact ⟨hback (readCompleted_spec hflag' hconnected _ _), hnone⟩
    | write => exact ⟨hback (writeCompleted_spec hflag' hconnected _ _), hnone⟩
  · rw [if_neg hconnected]
    have hconnected := Bool.eq_false_of_not_eq_true hconnected
    rcases hproper' with hc | ⟨hlistening, rfl⟩ | ⟨hlistening, rfl⟩
    · rw [hconnected] at hc
      cases hc
    · rw [if_pos hlistening]
      obtain ⟨hcompleted, hclient⟩ := acceptCompleted_spec hflag' hconnected (t.ctx .read).status
        sys fresh
      exact ⟨hback hcompleted, hclient⟩
    · rw [if_neg (by rw [hlistening]; decide)]
      exact ⟨hback (connectCompleted_spec hflag' hconnected hlistening _), hnone⟩

/-- The socket is closed, and the callback is invoked unless the event has been deleted. -/
theorem calls_of_closing (k : Option Socket) (deleted : Bool) (c : Call) :
    ((Tcp.closing k ++ if deleted then [] else [IoEffect.call c]).filterMap
      IoEffect.call?).map Call.op = if deleted then [] else [c.op] := by
  have hclosing : (Tcp.closing k).filterMap IoEffect.call? = [] := by cases k <;> rfl
  rw [List.filterMap_append, hclosing, List.nil_append, callUnless_op]

theorem timeoutRead_spec {k : OpKind} {op : ℕ} (hk : k.dir = .read) (hflag : t.reading = true)
    (hτ : t.timeoutRead.op = timeoutOp k) (hcb : callback t k = some op) :
    let r := timeoutFires t .read
    Expired t .read k op r.1 (r.2.filterMap IoEffect.call?) := by
  have hflags : ∀ e, Proactor.flag { t.toProactor with reading := true, error := true } e =
      t.flag e := by
    rintro (_ | _)
    · exact hflag.symm
    · rfl
  cases k with
  | connect | write => cases hk
  | accept =>
    have hτ : t.timeoutRead.op = .accept := hτ
    have hcb : t.onAccept = some op := hcb
    simp only [timeoutFires, tcpTimeoutReadCallback, hτ, hflag, hcb, Tcp.setError, if_true,
      Tcp.closeTcpSocket_eq]
    rw [if_neg (by decide), if_neg (by decide)]
    refine ⟨hflags, ?_, rfl, rfl, rfl, rfl, ⟨rfl, rfl⟩, calls_of_closing _ _ _⟩
    rintro (_ | _ | _ | _) <;> rfl
  | read =>
    have hτ : t.timeoutRead.op = .read := hτ
    have hcb : t.onRead = some op := hcb
    have hne : ¬TcpTimeoutOp.read = .accept := by decide
    simp only [timeoutFires, tcpTimeoutReadCallback, hτ, hflag, hcb, Tcp.setError, if_neg hne,
      Tcp.closeTcpSocket_eq]
    rw [if_neg (by decide), if_neg (by decide)]
    refine ⟨hflags, ?_, rfl, rfl, rfl, rfl, ⟨rfl, rfl⟩, calls_of_closing _ _ _⟩
    rintro (_ | _ | _ | _) <;> rfl

theorem timeoutWrite_spec {k : OpKind} {op : ℕ} (hk : k.dir = .write) (hflag : t.writing = true)
    (hτ : t.timeoutWrite.op = timeoutOp k) (hcb : callback t k = some op) :
    let r := timeoutFires t .write
    Expired t .write k op r.1 (r.2.filterMap IoEffect.call?) := by
  have hflags : ∀ e, Proactor.flag { t.toProactor with writing := true, error := true } e =
      t.flag e := by
    rintro (_ | _)
    · rfl
    · exact hflag.symm
  cases k with
  | accept | read => cases hk
  | connect =>
    have hτ : t.timeoutWrite.op = .connect := hτ
    have hcb : t.onConnect = some op := hcb
    simp only [timeoutFires, tcpTimeoutWriteCallback, hτ, hflag, hcb, Tcp.setError, if_true,
      Tcp.closeTcpSocket_eq]
    rw [if_neg (by decide), if_neg (by decide)]
    refine ⟨hflags, ?_, rfl, rfl, rfl, rfl, ⟨rfl, rfl⟩, calls_of_closing _ _ _⟩
    rintro (_ | _ | _ | _) <;> rfl
  | write =>
    have hτ : t.timeoutWrite.op = .write := hτ
    have hcb : t.onWrite = some op := hcb
    have hne : ¬TcpTimeoutOp.write = .connect := by decide
    simp only [timeoutFires, tcpTimeoutWriteCallback, hτ, hflag, hcb, Tcp.setError, if_neg hne,
      Tcp.closeTcpSocket_eq]
    rw [if_neg (by decide), if_neg (by decide)]
    refine ⟨hflags, ?_, rfl, rfl, rfl, rfl, ⟨rfl, rfl⟩, calls_of_closing _ _ _⟩
    rintro (_ | _ | _ | _) <;> rfl

/-- **A timeout** of an operation whose callback is there invokes it, and leaves the flag set. -/
theorem timeoutFires_spec {d : Dir} {k : OpKind} {op : ℕ} (hk : k.dir = d) (hflag : t.flag d = true)
    (hτ : (t.timeout d).op = timeoutOp k) (hcb : callback t k = some op) :
    let r := timeoutFires t d
    Expired t d k op r.1 (r.2.filterMap IoEffect.call?) := by
  cases d with
  | read => exact timeoutRead_spec hk hflag hτ hcb
  | write => exact timeoutWrite_spec hk hflag hτ hcb

end

end Nanoev.Iocp
