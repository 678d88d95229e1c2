import Nanoev.Io.Tcp

/-!
# What the functions of a TCP event can do

For each function that works on a TCP event, the list of its outcomes, with the resulting event, the
effects, and what is known when this outcome occurs. Invariants are proved from these lists; the
functions themselves are not looked at again.

In the outcomes of a call, a registration that was not made appears as one for the interest that the
event has already, since `epoll_poller_modify` does nothing then.
-/

namespace Nanoev

theorem epollPollerModify_self (m : Mask) (k : Option Socket) (sys : Sys) :
    epollPollerModify m k m sys = ⟨none, m, k⟩ := if_pos rfl

/-- A registration changes nothing, or it replaces the interest on both sides. -/
theorem epollPollerModify_cases {m events m' : Mask} {k k' : Option Socket} {sys : Sys}
    {err : Option Errno} (h : epollPollerModify m k events sys = ⟨err, m', k'⟩) :
    (m' = m ∧ k' = k) ∨
      err = none ∧ m' = events ∧ ∃ x, k = some x ∧ k' = some { x with interest := events } := by
  unfold epollPollerModify at h
  split at h
  · cases h
    exact .inl ⟨rfl, rfl⟩
  · split at h
    · cases h
      exact .inl ⟨rfl, rfl⟩
    · next x =>
      split_ifs at h
      · cases h
        exact .inl ⟨rfl, rfl⟩
      · cases h
        exact .inl ⟨rfl, rfl⟩
      · split at h
        · cases h
          exact .inl ⟨rfl, rfl⟩
        · cases h
          exact .inr ⟨rfl, rfl, x, rfl, rfl⟩

namespace Tcp

def opens : TcpCall → Bool
  | .connect .. | .listen .. => true
  | _ => false

/-- `nanoev_tcp_write` passes its tests and calls `write`. -/
def triesWrite (t : Tcp) (b : IoBuf) (timeout : Option Timeval) (callback : Bool) : Bool :=
  decide (b.buf ≠ 0 ∧ b.len ≠ 0 ∧ callback = true ∧ ¬timeout.any invalidDelay ∧
    ¬(t.notReady ∨ t.writing))

/-- The timeout of an operation that is started: none was asked for, or the node is armed. -/
def Armed (τ τ' : TcpTimeout) (op : TcpTimeoutOp) : Prop :=
  τ' = τ ∨ τ.active = false ∧ τ' = ⟨true, op⟩

/-- The timeout of an operation that could not be started. -/
def Unarmed (τ τ' : TcpTimeout) : Prop :=
  τ' = τ ∨ τ' = ⟨false, .none⟩ ∨ τ.active = true ∧ τ' = ⟨true, .none⟩

/-- What a call on `t` can do; `op` is the number of the call. -/
inductive CallOutcome (t : Tcp) (op : ℕ) (sys : Sys) (fresh : Fresh) :
    TcpCall → Tcp → List IoEffect → RetCode → Prop
  | refused {c ret} (hret : ret = .success → c.op? = none) : CallOutcome t op sys fresh c t [] ret
  | systemFailed {c e} (hc : c.op? = none)
      (hready : c = .setOption true ∧ sys.other ≠ none ∨
        t.error = false ∧ (t.connected = true ∨ t.listening = true)) :
    CallOutcome t op sys fresh c (t.setError e) [] .fail
  | noSocket {c τ e} (hc : opens c = true) (hsock : t.sock = none)
      (hτ : Unarmed t.timeoutWrite τ) :
    CallOutcome t op sys fresh c { t with timeoutWrite := τ, error := true, errorCode := e }
      [] .fail
  | openFailed {c events err m k cx τ e a} (hc : opens c = true) (hsock : t.sock = none)
      (hreg : epollPollerModify t.reactorEvents (some ⟨fresh.fd, .empty⟩) events sys = ⟨err, m, k⟩)
      (hτ : Unarmed t.timeoutWrite τ) :
    CallOutcome t op sys fresh c
      { t with
        sock := k, reactorEvents := m, ctxWrite := cx, timeoutWrite := τ
        error := true, errorCode := e }
      (.opened fresh.fd :: assertEffect a) .fail
  | connectQueued {addr timeout} (hsock : t.sock = none) :
    CallOutcome t op sys fresh (.connect addr timeout true)
      { t with
        sock := some ⟨fresh.fd, .empty⟩, ctxWrite := ⟨0, 0⟩
        writing := true, onConnect := some op }
      [.opened fresh.fd, .submit .write] .success
  | connectDeferred {addr timeout m k τ a} (hsock : t.sock = none)
      (hreg : epollPollerModify t.reactorEvents (some ⟨fresh.fd, .empty⟩) t.reactorEvents.orWrite
        sys = ⟨none, m, k⟩)
      (hτ : Armed t.timeoutWrite τ .connect) :
    CallOutcome t op sys fresh (.connect addr timeout true)
      { t with
        sock := k, reactorEvents := m, timeoutWrite := τ, writing := true, onConnect := some op }
      (.opened fresh.fd :: assertEffect a) .success
  | listenDone {m k} (hsock : t.sock = none)
      (hreg : epollPollerModify t.reactorEvents (some ⟨fresh.fd, .empty⟩) .evRead sys =
      ⟨none, m, k⟩) :
    CallOutcome t op sys fresh (.listen true)
      { t with sock := k, reactorEvents := m, listening := true } [.opened fresh.fd] .success
  | acceptFailed {timeout alloc cx τ e effects} (hlistening : t.listening = true)
      (herror : t.error = false) (hreading : t.reading = false)
      (hτ : Unarmed t.timeoutRead τ)
      (heffects : effects = [] ∨ effects = [.accepted fresh.fd, .close fresh.fd]) :
    CallOutcome t op sys fresh (.accept timeout true alloc)
      { t with
        readSlot := .accept alloc none, ctxRead := cx, timeoutRead := τ
        error := true, errorCode := e }
      effects .fail
  | acceptQueued {timeout alloc} (hlistening : t.listening = true) (hsock : t.sock ≠ none)
      (herror : t.error = false) (hreading : t.reading = false) :
    CallOutcome t op sys fresh (.accept timeout true alloc)
      { t with
        ctxRead := ⟨0, fresh.fd⟩, readSlot := .accept alloc (some fresh.fd)
        reading := true, onAccept := some op }
      [.accepted fresh.fd, .submit .read] .success
  | acceptDeferred {timeout alloc τ} (hlistening : t.listening = true) (hsock : t.sock ≠ none)
      (herror : t.error = false) (hreading : t.reading = false)
      (hτ : Armed t.timeoutRead τ .accept) :
    CallOutcome t op sys fresh (.accept timeout true alloc)
      { t with
        readSlot := .accept alloc none, timeoutRead := τ, reading := true, onAccept := some op }
      [] .success
  | writeFailed {b timeout events err m k cx τ e a} (hconnected : t.connected = true)
      (herror : t.error = false) (hwriting : t.writing = false)
      (hreg : epollPollerModify t.reactorEvents t.sock events sys = ⟨err, m, k⟩)
      (hevents : events = t.reactorEvents ∨ events = t.reactorEvents.orWrite)
      (hτ : Unarmed t.timeoutWrite τ) :
    CallOutcome t op sys fresh (.write b timeout true)
      { t with
        bufWrite := b, ctxWrite := cx, sock := k, reactorEvents := m, timeoutWrite := τ
        error := true, errorCode := e }
      (assertEffect a) .fail
  | writeQueued {b timeout n} (hconnected : t.connected = true) (hsock : t.sock ≠ none)
      (herror : t.error = false) (hwriting : t.writing = false) (hn : sys.io = .done n)
      (htries : t.triesWrite b timeout true = true) :
    CallOutcome t op sys fresh (.write b timeout true)
      { t with bufWrite := b, ctxWrite := ⟨0, n⟩, writing := true, onWrite := some op }
      [.submit .write] .success
  | writeDeferred {b timeout m k τ a} (hconnected : t.connected = true)
      (hsock : t.sock ≠ none) (herror : t.error = false) (hwriting : t.writing = false)
      (hreg : epollPollerModify t.reactorEvents t.sock t.reactorEvents.orWrite sys = ⟨none, m, k⟩)
      (hτ : Armed t.timeoutWrite τ .write) (hio : sys.io = .wouldBlock)
      (htries : t.triesWrite b timeout true = true) :
    CallOutcome t op sys fresh (.write b timeout true)
      { t with
        bufWrite := b, ctxWrite := ⟨0, 0⟩, sock := k, reactorEvents := m, timeoutWrite := τ
        writing := true, onWrite := some op }
      (assertEffect a) .success
  | readFailed {b timeout τ e} (hconnected : t.connected = true) (herror : t.error = false)
      (hreading : t.reading = false) (hτ : Unarmed t.timeoutRead τ) :
    CallOutcome t op sys fresh (.read b timeout true)
      { t with
        readSlot := .bufRead b, ctxRead := ⟨0, 0⟩, timeoutRead := τ, error := true, errorCode := e }
      [] .fail
  | readDeferred {b timeout τ} (hconnected : t.connected = true) (hsock : t.sock ≠ none)
      (herror : t.error = false) (hreading : t.reading = false) (hτ : Armed t.timeoutRead τ .read) :
    CallOutcome t op sys fresh (.read b timeout true)
      { t with
        readSlot := .bufRead b, ctxRead := ⟨0, 0⟩, timeoutRead := τ
        reading := true, onRead := some op }
      [] .success

variable {t : Tcp} {op : ℕ} {sys : Sys} {fresh : Fresh}

theorem tcpTimeoutAdd_cases (τ : TcpTimeout) (o : TcpTimeoutOp) (mem : Bool) :
    (∃ τ', tcpTimeoutAdd τ o mem = (τ', true) ∧ τ.active = false ∧ τ' = ⟨true, o⟩) ∨
      ∃ τ', tcpTimeoutAdd τ o mem = (τ', false) ∧ Unarmed τ τ' := by
  unfold tcpTimeoutAdd
  split_ifs with ha hm
  · refine .inr ⟨_, rfl, .inr (.inr ⟨ha, ?_⟩)⟩
    rw [← ha]
  · exact .inl ⟨_, rfl, by simpa using ha, rfl⟩
  · exact .inr ⟨_, rfl, .inr (.inl rfl)⟩

theorem unarmed_del (τ : TcpTimeout) (del : Bool) :
    Unarmed τ (if del then tcpTimeoutDel else τ) := by
  cases del with
  | false => exact .inl rfl
  | true => exact .inr (.inl rfl)

theorem listen_outcome (localAddr : Bool) :
    let r := t.nanoevTcpListen localAddr sys fresh
    CallOutcome t op sys fresh (.listen localAddr) r.1 r.2.1 r.2.2 := by
  unfold nanoevTcpListen createTcpSocket registerProactor
  split_ifs with haddr hsock
  · exact .refused (by simp)
  · exact .refused (by simp)
  · rw [Bool.not_eq_false] at haddr
    rw [Option.not_isSome_iff_eq_none] at hsock
    subst haddr
    cases sys.socket with
    | some e => exact .noSocket rfl hsock (.inl rfl)
    | none =>
      have hopen : ∀ e, CallOutcome t op sys fresh (.listen true)
          (setError { t with sock := some ⟨fresh.fd, .empty⟩ } e) [.opened fresh.fd] .fail :=
        fun e ↦ .openFailed (a := true) rfl hsock (epollPollerModify_self _ _ _) (.inl rfl)
      cases sys.closeOnExec with
      | some e => exact hopen _
      | none =>
        cases sys.nonBlocking with
        | some e => exact hopen _
        | none =>
          rcases hreg : epollPollerModify t.reactorEvents (some ⟨fresh.fd, .empty⟩) .evRead sys with
            ⟨err, m, k⟩
          have hfailed : ∀ e, CallOutcome t op sys fresh (.listen true)
              (setError { t with reactorEvents := m, sock := k } e) [.opened fresh.fd] .fail :=
            fun e ↦ .openFailed (a := true) rfl hsock hreg (.inl rfl)
          cases err with
          | some e =>
            simp only [hreg]
            exact hfailed _
          | none =>
            simp only [hreg]
            cases sys.bind with
            | some e => exact hfailed _
            | none =>
              cases sys.listen with
              | some e => exact hfailed _
              | none => exact .listenDone hsock hreg

theorem connect_outcome (addr : Bool) (timeout : Option Timeval) :
    let r := t.nanoevTcpConnect addr timeout (some op) sys fresh
    CallOutcome t op sys fresh (.connect addr timeout true) r.1 r.2.1 r.2.2 := by
  unfold nanoevTcpConnect createTcpSocket registerProactor
  by_cases hargs : addr = false ∨ some op = none
  · rw [if_pos hargs]
    exact .refused (by simp)
  rw [if_neg hargs]
  by_cases hdelay : timeout.any invalidDelay = true
  · rw [if_pos hdelay]
    exact .refused (by simp)
  rw [if_neg hdelay]
  by_cases hsock : t.sock.isSome = true
  · rw [if_pos hsock]
    exact .refused (by simp)
  rw [if_neg hsock]
  rw [Option.not_isSome_iff_eq_none] at hsock
  cases sys.socket with
  | some e => exact .noSocket rfl hsock (unarmed_del _ _)
  | none =>
    have hopen : ∀ e, CallOutcome t op sys fresh (.connect addr timeout true)
        (connectError { t with sock := some ⟨fresh.fd, .empty⟩ } timeout.isSome e)
        [.opened fresh.fd] .fail :=
      fun e ↦ .openFailed (a := true) rfl hsock (epollPollerModify_self _ _ _) (unarmed_del _ _)
    cases sys.closeOnExec with
    | some e => exact hopen _
    | none =>
      cases sys.nonBlocking with
      | some e => exact hopen _
      | none =>
        cases sys.connect with
        | failed e => exact hopen _
        | done =>
          by_cases hsubmit : sys.submit = true
          · simp only [hsubmit, if_true]
            exact .connectQueued hsock
          · simp only [hsubmit]
            exact .openFailed (a := true) rfl hsock (epollPollerModify_self _ _ _) (.inl rfl)
        | inProgress =>
          rcases hreg : epollPollerModify t.reactorEvents (some ⟨fresh.fd, .empty⟩)
            t.reactorEvents.orWrite sys with ⟨err, m, k⟩
          cases err with
          | some e =>
            simp only [hreg]
            exact .openFailed rfl hsock hreg (unarmed_del _ _)
          | none =>
            simp only [hreg]
            cases timeout with
            | none => exact .connectDeferred hsock hreg (.inl rfl)
            | some after =>
              rcases tcpTimeoutAdd_cases t.timeoutWrite .connect sys.timerNode with
                ⟨τ, hadd, hτ, hτ'⟩ | ⟨τ, hadd, -⟩
              · simp only [hadd]
                exact .connectDeferred hsock hreg (.inr ⟨hτ, hτ'⟩)
              · simp only [hadd]
                exact .openFailed rfl hsock hreg (.inr (.inl rfl))

theorem accept_outcome (timeout : Option Timeval) (alloc : Bool) :
    let r := t.nanoevTcpAccept timeout (some op) alloc sys fresh
    CallOutcome t op sys fresh (.accept timeout true alloc) r.1 r.2.1 r.2.2 := by
  unfold nanoevTcpAccept
  rw [if_neg (Option.some_ne_none op)]
  by_cases hdelay : timeout.any invalidDelay = true
  · rw [if_pos hdelay]
    exact .refused (by simp)
  rw [if_neg hdelay]
  by_cases hready : t.sock = none ∨ t.error ∨ t.deleted ∨ !t.listening ∨ t.reading
  · rw [if_pos hready]
    exact .refused (by simp)
  rw [if_neg hready]
  simp only [not_or, Bool.not_eq_true, Bool.not_eq_false'] at hready
  obtain ⟨hsock, herror, -, hlistening, hreading⟩ := hready
  cases sys.accept with
  | failed e => exact .acceptFailed hlistening herror hreading (unarmed_del _ _) (.inl rfl)
  | done =>
    cases sys.closeOnExec with
    | some e => exact .acceptFailed hlistening herror hreading (unarmed_del _ _) (.inr rfl)
    | none =>
      by_cases hsubmit : sys.submit = true
      · simp only [hsubmit, if_true]
        exact .acceptQueued hlistening hsock herror hreading
      · simp only [hsubmit]
        exact .acceptFailed hlistening herror hreading (unarmed_del _ _) (.inr rfl)
  | wouldBlock =>
    cases timeout with
    | none => exact .acceptDeferred hlistening hsock herror hreading (.inl rfl)
    | some after =>
      rcases tcpTimeoutAdd_cases t.timeoutRead .accept sys.timerNode with
        ⟨τ, hadd, hτ, hτ'⟩ | ⟨τ, hadd, -⟩
      · simp only [hadd]
        exact .acceptDeferred hlistening hsock herror hreading (.inr ⟨hτ, hτ'⟩)
      · simp only [hadd]
        exact .acceptFailed hlistening herror hreading (.inr (.inl rfl)) (.inl rfl)

theorem ready_iff : t.notReady = false ↔
    t.sock ≠ none ∧ t.error = false ∧ t.deleted = false ∧ t.connected = true := by
  simp [notReady, and_assoc]

theorem write_outcome (b : IoBuf) (timeout : Option Timeval) :
    let r := t.nanoevTcpWrite b timeout (some op) sys
    CallOutcome t op sys fresh (.write b timeout true) r.1 r.2.1 r.2.2 := by
  unfold nanoevTcpWrite registerProactor
  by_cases hargs : b.buf = 0 ∨ b.len = 0 ∨ some op = none
  · rw [if_pos hargs]
    exact .refused (by simp)
  rw [if_neg hargs]
  by_cases hdelay : timeout.any invalidDelay = true
  · rw [if_pos hdelay]
    exact .refused (by simp)
  rw [if_neg hdelay]
  by_cases hready : t.notReady ∨ t.writing
  · rw [if_pos hready]
    exact .refused (by simp)
  rw [if_neg hready]
  have htries : t.triesWrite b timeout true = true := by
    rw [triesWrite, decide_eq_true_eq]
    exact ⟨fun h ↦ hargs (.inl h), fun h ↦ hargs (.inr (.inl h)), rfl, hdelay, hready⟩
  simp only [not_or, Bool.not_eq_true, ready_iff] at hready
  obtain ⟨⟨hsock, herror, -, hconnected⟩, hwriting⟩ := hready
  cases hio : sys.io with
  | failed e =>
    exact .writeFailed (a := true) hconnected herror hwriting (epollPollerModify_self _ _ _)
      (.inl rfl) (.inl rfl)
  | done n =>
    by_cases hsubmit : sys.submit = true
    · simp only [hsubmit, if_true]
      exact .writeQueued hconnected hsock herror hwriting hio htries
    · simp only [hsubmit]
      exact .writeFailed (a := true) hconnected herror hwriting (epollPollerModify_self _ _ _)
        (.inl rfl) (.inl rfl)
  | wouldBlock =>
    rcases hreg : epollPollerModify t.reactorEvents t.sock t.reactorEvents.orWrite sys with
      ⟨err, m, k⟩
    cases err with
    | some e =>
      simp only [hreg]
      exact .writeFailed hconnected herror hwriting hreg (.inr rfl) (.inl rfl)
    | none =>
      simp only [hreg]
      cases timeout with
      | none => exact .writeDeferred hconnected hsock herror hwriting hreg (.inl rfl) hio htries
      | some after =>
        rcases tcpTimeoutAdd_cases t.timeoutWrite .write sys.timerNode with
          ⟨τ, hadd, hτ, hτ'⟩ | ⟨τ, hadd, hτ⟩
        · simp only [hadd]
          exact .writeDeferred hconnected hsock herror hwriting hreg (.inr ⟨hτ, hτ'⟩) hio htries
        · simp only [hadd]
          exact .writeFailed hconnected herror hwriting hreg (.inr rfl) hτ

theorem read_outcome (b : IoBuf) (timeout : Option Timeval) :
    let r := t.nanoevTcpRead b timeout (some op) sys
    CallOutcome t op sys fresh (.read b timeout true) r.1 r.2.1 r.2.2 := by
  unfold nanoevTcpRead
  by_cases hargs : b.buf = 0 ∨ b.len = 0 ∨ some op = none
  · rw [if_pos hargs]
    exact .refused (by simp)
  rw [if_neg hargs]
  by_cases hdelay : timeout.any invalidDelay = true
  · rw [if_pos hdelay]
    exact .refused (by simp)
  rw [if_neg hdelay]
  by_cases hready : t.notReady ∨ t.reading
  · rw [if_pos hready]
    exact .refused (by simp)
  rw [if_neg hready]
  simp only [not_or, Bool.not_eq_true, ready_iff] at hready
  obtain ⟨⟨hsock, herror, -, hconnected⟩, hreading⟩ := hready
  cases timeout with
  | none => exact .readDeferred hconnected hsock herror hreading (.inl rfl)
  | some after =>
    rcases tcpTimeoutAdd_cases t.timeoutRead .read sys.timerNode with
      ⟨τ, hadd, hτ, hτ'⟩ | ⟨τ, hadd, hτ⟩
    · simp only [hadd]
      exact .readDeferred hconnected hsock herror hreading (.inr ⟨hτ, hτ'⟩)
    · simp only [hadd]
      exact .readFailed hconnected herror hreading hτ

theorem systemCall_outcome {c : TcpCall} (hc : c.op? = none) {refused : Bool}
    (hready : refused = false → c = .setOption true ∨
      t.error = false ∧ (t.connected = true ∨ t.listening = true)) :
    let r := t.systemCall refused sys
    CallOutcome t op sys fresh c r.1 r.2.1 r.2.2 := by
  unfold systemCall
  cases refused with
  | true => exact .refused fun _ ↦ hc
  | false =>
    cases hother : sys.other with
    | some e => exact .systemFailed hc ((hready rfl).imp_left fun h ↦ ⟨h, by simp [hother]⟩)
    | none => exact .refused fun _ ↦ hc

theorem outcome_of_invalidArg {c : TcpCall} (h : c.run t op sys fresh = (t, [], .invalidArg)) :
    let r := c.run t op sys fresh
    CallOutcome t op sys fresh c r.1 r.2.1 r.2.2 := by
  rw [h]
  exact .refused (by simp)

theorem run_outcome (c : TcpCall) :
    let r := c.run t op sys fresh
    CallOutcome t op sys fresh c r.1 r.2.1 r.2.2 := by
  cases c with
  | connect addr timeout callback =>
    cases callback with
    | true => exact connect_outcome addr timeout
    | false => exact outcome_of_invalidArg (by simp [TcpCall.run, nanoevTcpConnect])
  | listen addr => exact listen_outcome addr
  | accept timeout callback alloc =>
    cases callback with
    | true => exact accept_outcome timeout alloc
    | false => exact outcome_of_invalidArg (by simp [TcpCall.run, nanoevTcpAccept])
  | write b timeout callback =>
    cases callback with
    | true => exact write_outcome b timeout
    | false => exact outcome_of_invalidArg (by simp [TcpCall.run, nanoevTcpWrite])
  | read b timeout callback =>
    cases callback with
    | true => exact read_outcome b timeout
    | false => exact outcome_of_invalidArg (by simp [TcpCall.run, nanoevTcpRead])
  | shutdown how =>
    cases how with
    | true =>
      refine systemCall_outcome rfl fun hready ↦ ?_
      simp only [notReady, Bool.or_eq_false_iff, Bool.not_eq_false'] at hready
      exact .inr ⟨hready.1.1.2, .inl hready.2⟩
    | false => exact .refused fun _ ↦ rfl
  | addr present isLocal =>
    cases present with
    | true =>
      refine systemCall_outcome rfl fun hready ↦ ?_
      simp only [Bool.or_eq_false_iff, Bool.and_eq_false_iff, Bool.not_eq_false'] at hready
      exact .inr ⟨hready.1.1.2, hready.2.imp_right And.left⟩
    | false => exact .refused fun _ ↦ rfl
  | setOption valid =>
    cases valid with
    | true => exact systemCall_outcome rfl fun _ ↦ .inl rfl
    | false => exact .refused fun _ ↦ rfl

/-! ## Completions

The status of the completion is noted before anything else, which may drop the interest in writing
and set the error state (`Noted`). The flags then decide which operation the completion is taken
for. If the operation is gone, for instance because its timeout has expired, the completion is
stale. -/

/-- The registration and the error state that `noteStatus` leaves. -/
structure Noted (t : Tcp) (d : Dir) (sys : Sys) (m : Mask) (k : Option Socket) (er : Bool) :
    Prop where
  reg : ∃ events err,
    (events = t.reactorEvents ∨ d = .write ∧ events = t.reactorEvents.andNotWrite) ∧
      epollPollerModify t.reactorEvents t.sock events sys = ⟨err, m, k⟩
  error : er = (t.error || decide ((t.ctx d).status ≠ 0))

/-- The call of a callback, unless the client has freed the event. -/
def callUnless (deleted : Bool) (c : Call) : List IoEffect := if deleted then [] else [.call c]

/-- What a completion handed to `t` can do. -/
inductive DispatchOutcome (t : Tcp) (d : Dir) (sys : Sys) (fresh : Fresh) :
    Tcp → Option Tcp → List IoEffect → Prop
  | readDone {m k er ec op} (hn : Noted t d sys m k er) (hd : d = .read)
      (hconnected : t.connected = true) (hreading : t.reading = true) (hop : t.onRead = some op) :
    DispatchOutcome t d sys fresh
      { t with
        sock := k, reactorEvents := m, error := er, errorCode := ec
        reading := false, onRead := none, timeoutRead := ⟨false, .none⟩ }
      none
      (callUnless t.deleted ⟨op, t.ctxRead.status, t.readSlot.buf.buf, t.ctxRead.bytes, none⟩)
  | writeDone {m k er ec op} (hn : Noted t d sys m k er) (hd : d = .write)
      (hconnected : t.connected = true) (hwriting : t.writing = true) (hop : t.onWrite = some op) :
    DispatchOutcome t d sys fresh
      { t with
        sock := k, reactorEvents := m, error := er, errorCode := ec
        writing := false, onWrite := none, timeoutWrite := ⟨false, .none⟩ }
      none
      (callUnless t.deleted ⟨op, t.ctxWrite.status, t.bufWrite.buf, t.ctxWrite.bytes, none⟩)
  | acceptDone {m k er ec op} (hn : Noted t d sys m k er) (hconnected : t.connected = false)
      (hlistening : t.listening = true) (hreading : t.reading = true)
      (hop : t.onAccept = some op) (hdeleted : t.deleted = false) :
    DispatchOutcome t d sys fresh
      { t with
        sock := k, reactorEvents := m, error := er, errorCode := ec
        reading := false, onAccept := none, timeoutRead := ⟨false, .none⟩
        readSlot := .accept false none }
      (acceptClient t.readSlot.allocUserdata t.readSlot.socketAccept (t.ctx d).status op sys
        fresh).1
      (acceptClient t.readSlot.allocUserdata t.readSlot.socketAccept (t.ctx d).status op sys
        fresh).2
  | acceptDropped {m k er ec op} (hn : Noted t d sys m k er) (hconnected : t.connected = false)
      (hlistening : t.listening = true) (hreading : t.reading = true)
      (hop : t.onAccept = some op) (hdeleted : t.deleted = true) :
    DispatchOutcome t d sys fresh
      { t with
        sock := k, reactorEvents := m, error := er, errorCode := ec
        reading := false, onAccept := none, timeoutRead := ⟨false, .none⟩
        readSlot := .accept false none }
      none (closeAccepted t.readSlot.socketAccept)
  | connectDone {m k er ec op err m' k'} (hn : Noted t d sys m k er)
      (hconnected : t.connected = false) (hlistening : t.listening = false)
      (hwriting : t.writing = true) (hop : t.onConnect = some op) (hdeleted : t.deleted = false)
      (hstatus : (t.ctx d).status = 0)
      (hreg : epollPollerModify m k m.orRead sys = ⟨err, m', k'⟩) :
    DispatchOutcome t d sys fresh
      { t with
        sock := k', reactorEvents := m', error := er, errorCode := ec
        writing := false, onConnect := none, timeoutWrite := ⟨false, .none⟩, connected := true }
      none [.call ⟨op, (t.ctx d).status, 0, 0, none⟩]
  | connectFailed {m k er ec op} (hn : Noted t d sys m k er)
      (hconnected : t.connected = false) (hlistening : t.listening = false)
      (hwriting : t.writing = true) (hop : t.onConnect = some op)
      (hfailed : t.deleted = true ∨ (t.ctx d).status ≠ 0) :
    DispatchOutcome t d sys fresh
      { t with
        sock := k, reactorEvents := m, error := er, errorCode := ec
        writing := false, onConnect := none, timeoutWrite := ⟨false, .none⟩ }
      none (callUnless t.deleted ⟨op, (t.ctx d).status, 0, 0, none⟩)
  | readStale {m k er ec r o τ} (hn : Noted t d sys m k er) (hd : d = .read)
      (hconnected : t.connected = true) (hlost : t.reading = false ∨ t.onRead = none)
      (hr : r = false) (hτ : τ = t.timeoutRead ∨ τ = ⟨false, .none⟩) :
    DispatchOutcome t d sys fresh
      { t with
        sock := k, reactorEvents := m, error := er, errorCode := ec
        reading := r, onRead := o, timeoutRead := τ }
      none []
  | writeStale {m k er ec w o τ} (hn : Noted t d sys m k er) (hd : d = .write)
      (hconnected : t.connected = true) (hlost : t.writing = false ∨ t.onWrite = none)
      (hw : w = false) :
    DispatchOutcome t d sys fresh
      { t with
        sock := k, reactorEvents := m, error := er, errorCode := ec
        writing := w, onWrite := o, timeoutWrite := τ }
      none []
  | acceptStale {m k er ec r o τ} (hn : Noted t d sys m k er) (hconnected : t.connected = false)
      (hlistening : t.listening = true) (hlost : t.reading = false ∨ t.onAccept = none)
      (hr : r = false) (hτ : τ = t.timeoutRead ∨ τ = ⟨false, .none⟩) :
    DispatchOutcome t d sys fresh
      { t with
        sock := k, reactorEvents := m, error := er, errorCode := ec
        reading := r, onAccept := o, timeoutRead := τ
        readSlot := if t.readSlot.socketAccept = none then t.readSlot else t.readSlot.clearSocket }
      none (closeAccepted t.readSlot.socketAccept)
  | connectStale {m k er ec w o τ} (hn : Noted t d sys m k er) (hconnected : t.connected = false)
      (hlistening : t.listening = false) (hlost : t.writing = false ∨ t.onConnect = none)
      (hw : w = false) (hτ : τ = t.timeoutWrite ∨ τ = ⟨false, .none⟩) :
    DispatchOutcome t d sys fresh
      { t with
        sock := k, reactorEvents := m, error := er, errorCode := ec
        writing := w, onConnect := o, timeoutWrite := τ }
      none []

def client (userdata : Option ℕ) (fd : ℕ) : Tcp :=
  { tcpNew with
    userdata := userdata, sock := some ⟨fd, .evRead⟩, reactorEvents := .evRead, connected := true }

/-- The call of `alloc_userdata`, if there is such a function. -/
def allocating (alloc : Bool) (u : ℕ) : List IoEffect := if alloc then [.allocUserdata u] else []

/-- What the completion of an accept can do from the allocation of the user data on; `slot` is
`socket_accept`. -/
inductive AcceptOutcome (alloc : Bool) (slot : Option ℕ) (status : ℤ) (op : ℕ) (sys : Sys)
    (fresh : Fresh) : Option Tcp → List IoEffect → Prop
  | rejected {e} :
    AcceptOutcome alloc slot status op sys fresh none
      (closeAccepted slot ++ [.call ⟨op, e, 0, 0, none⟩])
  | noMemory (hmem : sys.memAlloc = false) :
    AcceptOutcome alloc slot status op sys fresh none
      (allocating alloc fresh.userdata ++ closeAccepted slot ++
        (if alloc then [.freeUserdata fresh.userdata] else []) ++
        [.call ⟨op, Errno.nomem.1, 0, 0, none⟩])
  | halfBuilt (hstatus : status = 0) (huser : alloc = true → sys.userdata = true)
      (hmem : sys.memAlloc = true)
      (hfailed : slot = none ∨ sys.nonBlocking ≠ none ∨ sys.closeOnExec ≠ none ∨
        sys.epollCtl ≠ none) :
    AcceptOutcome alloc slot status op sys fresh none
      (allocating alloc fresh.userdata ++ closeAccepted slot ++ closeAccepted slot ++
        (if alloc then [.freeUserdata fresh.userdata] else []) ++
        [.call ⟨op, Errno.nomem.1, 0, 0, none⟩])
  | accepted {fd} (hslot : slot = some fd) :
    AcceptOutcome alloc slot status op sys fresh
      (some (client (if alloc then some fresh.userdata else none) fd))
      (allocating alloc fresh.userdata ++ [.call ⟨op, 0, 0, 0, some fresh.event⟩])

theorem epollPollerModify_new (fd : ℕ) (sys : Sys) :
    epollPollerModify .empty (some ⟨fd, .empty⟩) .evRead sys =
      match sys.epollCtl with
      | some e => ⟨some e, .empty, some ⟨fd, .empty⟩⟩
      | none => ⟨none, .evRead, some ⟨fd, .evRead⟩⟩ := rfl

theorem tcpAllocClient_cases (u slot : Option ℕ) (sys : Sys) :
    (sys.memAlloc = false ∧ tcpAllocClient u slot sys = (none, [])) ∨
      (sys.memAlloc = true ∧
        (slot = none ∨ sys.nonBlocking ≠ none ∨ sys.closeOnExec ≠ none ∨ sys.epollCtl ≠ none) ∧
        tcpAllocClient u slot sys = (none, closeAccepted slot)) ∨
      ∃ fd, slot = some fd ∧ tcpAllocClient u slot sys = (some (client u fd), []) := by
  unfold tcpAllocClient registerProactor
  by_cases hmem : sys.memAlloc = false
  · exact .inl ⟨hmem, if_pos hmem⟩
  rw [if_neg hmem]
  rw [Bool.not_eq_false] at hmem
  cases slot with
  | none => exact .inr (.inl ⟨hmem, .inl rfl, rfl⟩)
  | some fd =>
    cases sys.nonBlocking with
    | some e => exact .inr (.inl ⟨hmem, .inr (.inl (by simp)), rfl⟩)
    | none =>
      cases sys.closeOnExec with
      | some e => exact .inr (.inl ⟨hmem, .inr (.inr (.inl (by simp))), rfl⟩)
      | none =>
        cases hctl : sys.epollCtl with
        | some e =>
          refine .inr (.inl ⟨hmem, .inr (.inr (.inr (by simp))), ?_⟩)
          simp only [Option.map_some, tcpNew, Proactor.new, epollPollerModify_new, hctl]
          rfl
        | none =>
          refine .inr (.inr ⟨fd, rfl, ?_⟩)
          simp only [Option.map_some, tcpNew, Proactor.new, epollPollerModify_new, hctl]
          rfl

theorem acceptClient_outcome (alloc : Bool) (slot : Option ℕ) (status : ℤ) (op : ℕ) (sys : Sys)
    (fresh : Fresh) :
    AcceptOutcome alloc slot status op sys fresh (acceptClient alloc slot status op sys fresh).1
      (acceptClient alloc slot status op sys fresh).2 := by
  unfold acceptClient
  by_cases hstatus : status ≠ 0
  · rw [if_pos hstatus]
    exact .rejected
  rw [if_neg hstatus]
  by_cases huser : (alloc && !sys.userdata) = true
  · rw [if_pos huser]
    exact .rejected
  rw [if_neg huser]
  rcases tcpAllocClient_cases (if alloc then some fresh.userdata else none) slot sys with
    ⟨hmem, h⟩ | ⟨hmem, hfailed, h⟩ | ⟨fd, hslot, h⟩
  · simp only [h, List.append_nil]
    exact .noMemory hmem
  · simp only [h]
    refine .halfBuilt (not_not.mp hstatus) (fun halloc ↦ ?_) hmem hfailed
    rw [halloc, Bool.true_and, Bool.not_eq_true'] at huser
    exact Bool.eq_true_of_not_eq_false huser
  · simp only [h, List.append_nil]
    exact .accepted hslot

theorem noteStatus_eq (t : Tcp) (d : Dir) (sys : Sys) :
    ∃ m k er ec, Noted t d sys m k er ∧
      t.noteStatus d sys =
        { t with sock := k, reactorEvents := m, error := er, errorCode := ec } := by
  obtain ⟨m, k, hreg, ht⟩ : ∃ m k,
      (∃ events err,
        (events = t.reactorEvents ∨ d = .write ∧ events = t.reactorEvents.andNotWrite) ∧
          epollPollerModify t.reactorEvents t.sock events sys = ⟨err, m, k⟩) ∧
        (if d = .write then t.dropWriteInterest sys else t) =
          { t with sock := k, reactorEvents := m } := by
    by_cases hd : d = .write ∧ t.reactorEvents.write = true
    · obtain ⟨rfl, hw⟩ := hd
      rcases hreg : epollPollerModify t.reactorEvents t.sock t.reactorEvents.andNotWrite sys with
        ⟨err, m, k⟩
      exact ⟨m, k, ⟨_, err, .inr ⟨rfl, rfl⟩, hreg⟩,
        by rw [if_pos rfl, dropWriteInterest, if_pos hw, registerProactor, hreg]⟩
    · refine ⟨_, _, ⟨_, _, .inl rfl, epollPollerModify_self _ _ _⟩, ?_⟩
      split_ifs with h
      · rw [dropWriteInterest, if_neg fun hw ↦ hd ⟨h, hw⟩]
      · rfl
  rw [noteStatus, ht]
  by_cases hs : (t.ctx d).status = 0
  · exact ⟨m, k, t.error, t.errorCode, ⟨hreg, by simp [hs]⟩, if_neg (not_not.mpr hs)⟩
  · exact ⟨m, k, true, (t.ctx d).status, ⟨hreg, by simp [hs]⟩, if_pos hs⟩

theorem dispatch_outcome (d : Dir) :
    let r := t.tcpProactorCallback d sys fresh
    DispatchOutcome t d sys fresh r.1 r.2.1 r.2.2 := by
  obtain ⟨m, k, er, ec, hn, ht⟩ := noteStatus_eq t d sys
  unfold tcpProactorCallback
  rw [ht]
  dsimp only
  by_cases hconnected : t.connected = true
  · rw [if_pos hconnected]
    cases d with
    | read =>
      dsimp only [readCompleted]
      split
      · next h => exact .readStale hn rfl hconnected (.inl h) h (.inl rfl)
      · next h =>
        rw [Bool.not_eq_false] at h
        split
        · next hop => exact .readStale hn rfl hconnected (.inr hop) rfl (.inr rfl)
        · next op hop => exact .readDone hn rfl hconnected h hop
    | write =>
      dsimp only [writeCompleted]
      split
      · next h => exact .writeStale hn rfl hconnected (.inl h) h
      · next h =>
        rw [Bool.not_eq_false] at h
        split
        · next hop => exact .writeStale hn rfl hconnected (.inr hop) rfl
        · next op hop => exact .writeDone hn rfl hconnected h hop
  rw [if_neg hconnected]
  rw [Bool.not_eq_true] at hconnected
  by_cases hlistening : t.listening = true
  · rw [if_pos hlistening]
    dsimp only [acceptCompleted]
    split
    · next h => exact .acceptStale hn hconnected hlistening (.inl h) h (.inl rfl)
    · next h =>
      rw [Bool.not_eq_false] at h
      split
      · next hop => exact .acceptStale hn hconnected hlistening (.inr hop) rfl (.inr rfl)
      · next op hop =>
        split
        · next hdel => exact .acceptDropped hn hconnected hlistening h hop hdel
        · next hdel =>
          exact .acceptDone hn hconnected hlistening h hop (Bool.eq_false_of_not_eq_true hdel)
  rw [if_neg hlistening]
  rw [Bool.not_eq_true] at hlistening
  dsimp only [connectCompleted]
  split
  · next h => exact .connectStale hn hconnected hlistening (.inl h) h (.inl rfl)
  · next h =>
    rw [Bool.not_eq_false] at h
    split
    · next hop => exact .connectStale hn hconnected hlistening (.inr hop) rfl (.inr rfl)
    · next op hop =>
      by_cases hdel : t.deleted = true
      · have hcall : ([] : List IoEffect) = callUnless t.deleted
          ⟨op, (t.ctx d).status, 0, 0, none⟩ :=
          (if_pos hdel).symm
        rw [if_pos hdel, hcall]
        exact .connectFailed hn hconnected hlistening h hop (.inl hdel)
      · rw [if_neg hdel]
        by_cases hstatus : (t.ctx d).status = 0
        · rcases hreg : epollPollerModify m k m.orRead sys with ⟨err, m', k'⟩
          simp only [if_pos hstatus, registerProactor, hreg]
          exact .connectDone hn hconnected hlistening h hop (Bool.eq_false_of_not_eq_true hdel)
            hstatus hreg
        · have hcall : [IoEffect.call ⟨op, (t.ctx d).status, 0, 0, none⟩] =
              callUnless t.deleted ⟨op, (t.ctx d).status, 0, 0, none⟩ := (if_neg hdel).symm
          rw [if_neg hstatus, hcall]
          exact .connectFailed hn hconnected hlistening h hop (.inr hstatus)

/-! ## Timeouts

A timeout that expires clears the flag of its direction and closes the socket; the other direction
keeps its flag and its callback. -/

def closing (k : Option Socket) : List IoEffect := (k.map fun k ↦ IoEffect.close k.fd).toList

theorem closeTcpSocket_eq (t : Tcp) :
    t.closeTcpSocket = ({ t with sock := none }, closing t.sock) := by
  unfold closeTcpSocket
  split
  · next k hk => rw [hk]; rfl
  · next hk =>
    rw [hk]
    refine Prod.ext ?_ rfl
    dsimp only
    rw [← hk]

/-- What the expiry of a timeout of `t` can do. -/
inductive TimeoutOutcome (t : Tcp) (d : Dir) (sys : Sys) : Tcp → List IoEffect → Prop
  | readIgnored {τ er ec} (hd : d = .read) (hτ : τ.active = false)
      (her : er = t.error ∨ er = true)
      (hlost : t.reading = false ∨
        (t.timeoutRead.op = .accept → t.onAccept = none) ∧
          (t.timeoutRead.op = .read → t.onRead = none)) :
    TimeoutOutcome t d sys { t with timeoutRead := τ, error := er, errorCode := ec } []
  | acceptExpired {o : ℕ} (hd : d = .read) (hto : t.timeoutRead.op = .accept)
      (hreading : t.reading = true) (hop : t.onAccept = some o) :
    TimeoutOutcome t d sys
      { t with
        timeoutRead := ⟨false, .none⟩, error := true, errorCode := Errno.timedout.1
        onAccept := none, reading := false, sock := none }
      (closing t.sock ++ callUnless t.deleted ⟨o, Errno.timedout.1, 0, 0, none⟩)
  | readExpired {o : ℕ} (hd : d = .read) (hto : t.timeoutRead.op = .read)
      (hreading : t.reading = true) (hop : t.onRead = some o) :
    TimeoutOutcome t d sys
      { t with
        timeoutRead := ⟨false, .none⟩, error := true, errorCode := Errno.timedout.1
        onRead := none, reading := false, sock := none }
      (closing t.sock ++
        callUnless t.deleted ⟨o, Errno.timedout.1, t.readSlot.buf.buf, 0, none⟩)
  | writeIgnored {τ er ec} (hd : d = .write) (hτ : τ.active = false)
      (her : er = t.error ∨ er = true)
      (hlost : t.writing = false ∨
        (t.timeoutWrite.op = .connect → t.onConnect = none) ∧
          (t.timeoutWrite.op = .write → t.onWrite = none)) :
    TimeoutOutcome t d sys { t with timeoutWrite := τ, error := er, errorCode := ec } []
  | connectExpired {o : ℕ} {err m k} (hd : d = .write) (hto : t.timeoutWrite.op = .connect)
      (hwriting : t.writing = true) (hop : t.onConnect = some o)
      (hreg : epollPollerModify t.reactorEvents t.sock t.reactorEvents.andNotWrite sys =
        ⟨err, m, k⟩) :
    TimeoutOutcome t d sys
      { t with
        timeoutWrite := ⟨false, .none⟩, error := true, errorCode := Errno.timedout.1
        onConnect := none, writing := false, reactorEvents := m, sock := none }
      (closing k ++ callUnless t.deleted ⟨o, Errno.timedout.1, 0, 0, none⟩)
  | writeExpired {o : ℕ} {err m k} (hd : d = .write) (hto : t.timeoutWrite.op = .write)
      (hwriting : t.writing = true) (hop : t.onWrite = some o)
      (hreg : epollPollerModify t.reactorEvents t.sock t.reactorEvents.andNotWrite sys =
        ⟨err, m, k⟩) :
    TimeoutOutcome t d sys
      { t with
        timeoutWrite := ⟨false, .none⟩, error := true, errorCode := Errno.timedout.1
        onWrite := none, writing := false, reactorEvents := m, sock := none }
      (closing k ++ callUnless t.deleted ⟨o, Errno.timedout.1, t.bufWrite.buf, 0, none⟩)

theorem epollPollerModify_fd {m events m' : Mask} {k k' : Option Socket} {err : Option Errno}
    (h : epollPollerModify m k events sys = ⟨err, m', k'⟩) :
    k'.map Socket.fd = k.map Socket.fd := by
  obtain ⟨-, rfl⟩ | ⟨-, -, x, rfl, rfl⟩ := epollPollerModify_cases h
  · rfl
  · rfl

theorem dropWriteInterest_eq (t : Tcp) (sys : Sys) :
    ∃ err m k,
      epollPollerModify t.reactorEvents t.sock t.reactorEvents.andNotWrite sys = ⟨err, m, k⟩ ∧
        t.dropWriteInterest sys = { t with reactorEvents := m, sock := k } := by
  unfold dropWriteInterest registerProactor
  rcases hreg : epollPollerModify t.reactorEvents t.sock t.reactorEvents.andNotWrite sys with
    ⟨err, m, k⟩
  split
  · exact ⟨err, m, k, rfl, rfl⟩
  · next hwrite =>
    have hsame : t.reactorEvents.andNotWrite = t.reactorEvents := by
      rw [Mask.andNotWrite, ← Bool.eq_false_of_not_eq_true hwrite]
    rw [hsame, epollPollerModify_self] at hreg
    cases hreg
    exact ⟨_, _, _, rfl, rfl⟩

theorem timeoutRead_outcome :
    let r := t.timeoutFires .read sys
    TimeoutOutcome t .read sys r.1 r.2 := by
  dsimp only [timeoutFires, tcpTimeoutReadCallback]
  by_cases hto : t.timeoutRead.op ≠ .accept ∧ t.timeoutRead.op ≠ .read
  · rw [if_pos hto]
    exact .readIgnored rfl rfl (.inl rfl)
      (.inr ⟨fun h ↦ absurd h hto.1, fun h ↦ absurd h hto.2⟩)
  rw [if_neg hto]
  split
  · next h => exact .readIgnored rfl rfl (.inl rfl) (.inl h)
  · next h =>
    rw [Bool.not_eq_false] at h
    dsimp only [setError]
    by_cases hacc : t.timeoutRead.op = .accept
    · simp only [hacc, if_true, closeTcpSocket_eq]
      split
      · next hop =>
        exact .readIgnored rfl rfl (.inr rfl)
          (.inr ⟨fun _ ↦ hop, fun h ↦ by rw [hacc] at h; cases h⟩)
      · next o hop => exact .acceptExpired rfl hacc h hop
    · have hread : t.timeoutRead.op = .read := by
        rw [not_and_or, not_not, not_not] at hto
        exact hto.resolve_left hacc
      simp only [if_neg hacc, closeTcpSocket_eq]
      split
      · next hop =>
        exact .readIgnored rfl rfl (.inr rfl) (.inr ⟨fun h ↦ absurd h hacc, fun _ ↦ hop⟩)
      · next o hop => exact .readExpired rfl hread h hop

theorem timeoutWrite_outcome :
    let r := t.timeoutFires .write sys
    TimeoutOutcome t .write sys r.1 r.2 := by
  dsimp only [timeoutFires, tcpTimeoutWriteCallback]
  by_cases hto : t.timeoutWrite.op ≠ .connect ∧ t.timeoutWrite.op ≠ .write
  · rw [if_pos hto]
    exact .writeIgnored rfl rfl (.inl rfl)
      (.inr ⟨fun h ↦ absurd h hto.1, fun h ↦ absurd h hto.2⟩)
  rw [if_neg hto]
  split
  · next h => exact .writeIgnored rfl rfl (.inl rfl) (.inl h)
  · next h =>
    rw [Bool.not_eq_false] at h
    dsimp only [setError]
    by_cases hconn : t.timeoutWrite.op = .connect
    · simp only [hconn, if_true, closeTcpSocket_eq]
      split
      · next hop =>
        exact .writeIgnored rfl rfl (.inr rfl)
          (.inr ⟨fun _ ↦ hop, fun h ↦ by rw [hconn] at h; cases h⟩)
      · next o hop =>
        obtain ⟨err, m, k, hreg, ht⟩ := dropWriteInterest_eq
          { t with
            timeoutWrite := ⟨false, .none⟩, error := true, errorCode := Errno.timedout.1
            onConnect := none } sys
        rw [ht]
        exact .connectExpired rfl hconn h hop hreg
    · have hwrite : t.timeoutWrite.op = .write := by
        rw [not_and_or, not_not, not_not] at hto
        exact hto.resolve_left hconn
      simp only [if_neg hconn, closeTcpSocket_eq]
      split
      · next hop =>
        exact .writeIgnored rfl rfl (.inr rfl) (.inr ⟨fun h ↦ absurd h hconn, fun _ ↦ hop⟩)
      · next o hop =>
        obtain ⟨err, m, k, hreg, ht⟩ := dropWriteInterest_eq
          { t with
            timeoutWrite := ⟨false, .none⟩, error := true, errorCode := Errno.timedout.1
            onWrite := none } sys
        rw [ht]
        exact .writeExpired rfl hwrite h hop hreg

theorem timeout_outcome (d : Dir) :
    let r := t.timeoutFires d sys
    TimeoutOutcome t d sys r.1 r.2 := by
  cases d with
  | read => exact timeoutRead_outcome
  | write => exact timeoutWrite_outcome

/-! ## Readiness

`reactor_cb` is only called for a direction that the socket is registered for. It completes the
context when the system call has come to an end, and does nothing when it would block. -/

/-- What `reactor_cb` of `t` can do: the event, whether the context is completed, the effects. -/
inductive OfferOutcome (t : Tcp) (d : Dir) (sys : Sys) (fresh : Fresh) :
    Tcp → Bool → List IoEffect → Prop
  | nothing : OfferOutcome t d sys fresh t false []
  | read {c} (hd : d = .read) (hreading : t.reading = true) (hconnected : t.connected = true)
      (hc : c.bytes ≤ t.readSlot.buf.len) :
    OfferOutcome t d sys fresh { t with ctxRead := c } true []
  | accepted (hd : d = .read) (hreading : t.reading = true) (hconnected : t.connected = false) :
    OfferOutcome t d sys fresh
      { t with
        ctxRead := ⟨0, 0⟩, readSlot := .accept t.readSlot.allocUserdata (some fresh.fd) }
      true [.accepted fresh.fd]
  | acceptFailed {c effects} (hd : d = .read) (hreading : t.reading = true)
      (hconnected : t.connected = false)
      (heffects : effects = [] ∨ effects = [.accepted fresh.fd, .close fresh.fd]) :
    OfferOutcome t d sys fresh { t with ctxRead := c, readSlot := t.readSlot.clearSocket } true
      effects
  | write {c} (hd : d = .write) (hwriting : t.writing = true) (hconnected : t.connected = true)
      (hc : c.bytes ≤ t.bufWrite.len) :
    OfferOutcome t d sys fresh { t with ctxWrite := c } true []
  | connect {c} (hd : d = .write) (hwriting : t.writing = true) (hconnected : t.connected = false) :
    OfferOutcome t d sys fresh { t with ctxWrite := c } true []

theorem offer_outcome {d : Dir} (hk : t.reactorKernel d sys = true) :
    let r := t.reactorCb d sys fresh
    OfferOutcome t d sys fresh r.1 r.2.1 r.2.2 := by
  cases d with
  | read =>
    dsimp only [reactorCb, reactorCbRead, reactorKernel] at hk ⊢
    split
    · exact .nothing
    · next hreading =>
      rw [Bool.not_eq_false] at hreading
      split
      · next hconnected =>
        split
        · next n hio =>
          rw [hio, IoResult.fits, decide_eq_true_eq] at hk
          exact .read rfl hreading hconnected hk
        · exact .nothing
        · exact .read rfl hreading hconnected (Nat.zero_le _)
      · next hconnected =>
        rw [Bool.not_eq_true] at hconnected
        split
        · split
          · exact .acceptFailed rfl hreading hconnected (.inr rfl)
          · exact .accepted rfl hreading hconnected
        · exact .nothing
        · exact .acceptFailed rfl hreading hconnected (.inl rfl)
  | write =>
    dsimp only [reactorCb, reactorCbWrite, reactorKernel] at hk ⊢
    split
    · exact .nothing
    · next hwriting =>
      rw [Bool.not_eq_false] at hwriting
      split
      · next hconnected =>
        split
        · next n hio =>
          rw [hio, IoResult.sends, Bool.and_eq_true, decide_eq_true_eq, decide_eq_true_eq] at hk
          exact .write rfl hwriting hconnected hk.2
        · exact .nothing
        · exact .write rfl hwriting hconnected (Nat.zero_le _)
      · next hconnected =>
        rw [Bool.not_eq_true] at hconnected
        exact .connect rfl hwriting hconnected

end Tcp

end Nanoev
