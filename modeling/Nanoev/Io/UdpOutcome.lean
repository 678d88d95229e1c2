import Nanoev.Io.Udp
import Nanoev.Io.TcpOutcome

/-!
# What the functions of a UDP event can do

The outcomes of a call on a UDP event, in the way of those of a TCP event. A call that starts
nothing may still have opened the socket of the event, left the event in the error state, or
connected it.
-/

namespace Nanoev

theorem epollPollerModify_error {m events m' : Mask} {k k' : Option Socket} {sys : Sys} {e : Errno}
    (h : epollPollerModify m k events sys = ⟨some e, m', k'⟩) : m' = m ∧ k' = k := by
  obtain hsame | ⟨herr, -⟩ := epollPollerModify_cases h
  · exact hsame
  · cases herr

/-- A function leaves the socket of an event and its registration as they were, or opens the socket
and may register it for reading. -/
inductive Opening (fresh : Fresh) (m : Mask) (k : Option Socket) :
    Mask → Option Socket → List IoEffect → Prop
  | same : Opening fresh m k m k []
  | opened {events m' k' sys err} (hnone : k = none) (hev : events = m ∨ events = .evRead)
      (hreg : epollPollerModify m (some ⟨fresh.fd, .empty⟩) events sys = ⟨err, m', k'⟩) :
    Opening fresh m k m' k' [.opened fresh.fd]

namespace Udp

/-- What a call on `u` can do; `op` is the number of the call. -/
inductive CallOutcome (u : Udp) (op : ℕ) (fresh : Fresh) :
    UdpCall → Udp → List IoEffect → RetCode → Prop
  | quiet {c k m f cn er ec bw cw ta wc effects a ret}
      (hopen : Opening fresh u.reactorEvents u.sock m k effects)
      (hret : ∀ b cb, c = .read b cb → ret ≠ .success) :
    CallOutcome u op fresh c
      { u with
        sock := k, reactorEvents := m, family := f, connected := cn, error := er, errorCode := ec
        bufWrite := bw, ctxWrite := cw, toAddr := ta, writeConnected := wc }
      (effects ++ assertEffect a) ret
  | readStarted {b} (hreading : u.reading = false) :
    CallOutcome u op fresh (.read b true)
      { u with bufRead := b, ctxRead := ⟨0, 0⟩, reading := true, onRead := some op } [] .success
  | writeQueued {b a k m f bw cw ta wc effects}
      (hopen : Opening fresh u.reactorEvents u.sock m k effects) (hwriting : u.writing = false) :
    CallOutcome u op fresh (.write b a true)
      { u with
        sock := k, reactorEvents := m, family := f, bufWrite := bw, ctxWrite := cw, toAddr := ta
        writeConnected := wc, writing := true, onWrite := some op }
      (effects ++ [.submit .write]) .success
  | writeDeferred {b a k₁ m₁ k m f bw cw ta wc effects sys x}
      (hopen : Opening fresh u.reactorEvents u.sock m₁ k₁ effects) (hwriting : u.writing = false)
      (hreg : epollPollerModify m₁ k₁ m₁.orWrite sys = ⟨none, m, k⟩) :
    CallOutcome u op fresh (.write b a true)
      { u with
        sock := k, reactorEvents := m, family := f, bufWrite := bw, ctxWrite := cw, toAddr := ta
        writeConnected := wc, writing := true, onWrite := some op }
      (effects ++ assertEffect x) .success

variable {u : Udp} {op : ℕ} {sys : Sys} {fresh : Fresh}

theorem registerProactor_eq (u : Udp) (events : Mask) (sys : Sys) :
    ∃ m k err, epollPollerModify u.reactorEvents u.sock events sys = ⟨err, m, k⟩ ∧
      u.registerProactor events sys = ({ u with reactorEvents := m, sock := k }, err) := by
  rcases hreg : epollPollerModify u.reactorEvents u.sock events sys with ⟨err, m, k⟩
  exact ⟨m, k, err, rfl, by rw [registerProactor, hreg]⟩

theorem createUdpSocket_eq (family : ℕ) (sys : Sys) (fresh : Fresh) (hsock : u.sock = none) :
    ∃ m k effects err, Opening fresh u.reactorEvents u.sock m k effects ∧
      u.createUdpSocket family sys fresh =
        ({ u with family, reactorEvents := m, sock := k }, effects, err) := by
  unfold createUdpSocket
  cases sys.socket with
  | some e => exact ⟨_, _, _, _, .same, rfl⟩
  | none =>
    have hopened : Opening fresh u.reactorEvents u.sock u.reactorEvents
        (some ⟨fresh.fd, .empty⟩) [.opened fresh.fd] :=
      .opened hsock (.inl rfl) (epollPollerModify_self _ _ sys)
    cases sys.closeOnExec with
    | some e => exact ⟨_, _, _, _, hopened, rfl⟩
    | none =>
      cases sys.nonBlocking with
      | some e => exact ⟨_, _, _, _, hopened, rfl⟩
      | none =>
        obtain ⟨m, k, err, hmod, hreg⟩ := registerProactor_eq
          { u with family, sock := some ⟨fresh.fd, .empty⟩ } .evRead sys
        simp only [hreg]
        have hregistered := Opening.opened hsock (.inr rfl) hmod
        cases err with
        | some e | none => exact ⟨m, k, _, _, hregistered, rfl⟩

theorem openUdpSocket_eq (family : ℕ) (sys : Sys) (fresh : Fresh) :
    ∃ m k f effects err, Opening fresh u.reactorEvents u.sock m k effects ∧
      u.openUdpSocket family sys fresh =
        ({ u with family := f, reactorEvents := m, sock := k }, effects, err) := by
  unfold openUdpSocket
  split
  · next hsock =>
    obtain ⟨m, k, effects, err, hopen, heq⟩ := createUdpSocket_eq family sys fresh hsock
    exact ⟨m, k, family, effects, err, hopen, heq⟩
  · exact ⟨_, _, _, _, _, .same, rfl⟩

theorem read_outcome (b : IoBuf) :
    let r := u.nanoevUdpRead b (some op)
    CallOutcome u op fresh (.read b true) r.1 r.2.1 r.2.2 := by
  unfold nanoevUdpRead
  split
  · exact .quiet (a := true) .same (by simp)
  · split
    · exact .quiet (a := true) .same (by simp)
    · next hready =>
      simp only [not_or, Bool.not_eq_true] at hready
      exact .readStarted hready.2.2.2

/-- The part of a write from the first attempt to send, on a socket that may have been opened
before. -/
theorem startWrite_outcome {m : Mask} {k : Option Socket} {f : ℕ} {effects : List IoEffect}
    (b : IoBuf) (a : Option Addr) (hopen : Opening fresh u.reactorEvents u.sock m k effects)
    (hwriting : u.writing = false) :
    let r := startWrite { u with family := f, reactorEvents := m, sock := k } b a (some op) sys
    CallOutcome u op fresh (.write b a true) r.1 (effects ++ r.2.1) r.2.2 := by
  unfold startWrite
  dsimp only
  cases sys.io with
  | failed e => exact .quiet (a := true) hopen (by simp)
  | done n =>
    dsimp only
    split
    · exact .writeQueued hopen hwriting
    · exact .quiet (a := true) hopen (by simp)
  | wouldBlock =>
    obtain ⟨m', k', err, hmod, hreg⟩ := registerProactor_eq
      { u with
        family := f, reactorEvents := m, sock := k, bufWrite := b, ctxWrite := ⟨0, 0⟩
        writeConnected := a.isNone, toAddr := a.getD u.toAddr } m.orWrite sys
    simp only [hreg]
    cases err with
    | some e =>
      obtain ⟨rfl, rfl⟩ := epollPollerModify_error hmod
      exact .quiet hopen (by simp)
    | none => exact .writeDeferred hopen hwriting hmod

theorem write_outcome (b : IoBuf) (a : Option Addr) :
    let r := u.nanoevUdpWrite b a (some op) sys fresh
    CallOutcome u op fresh (.write b a true) r.1 r.2.1 r.2.2 := by
  unfold nanoevUdpWrite
  by_cases hargs : b.buf = 0 ∨ b.len = 0 ∨ some op = none
  · rw [if_pos hargs]
    exact .quiet (a := true) .same (by simp)
  rw [if_neg hargs]
  by_cases haddr : a = none ∧ u.connected = false
  · rw [if_pos haddr]
    exact .quiet (a := true) .same (by simp)
  rw [if_neg haddr]
  by_cases hready : u.error ∨ u.deleted ∨ u.writing
  · rw [if_pos hready]
    exact .quiet (a := true) .same (by simp)
  rw [if_neg hready]
  simp only [not_or, Bool.not_eq_true] at hready
  obtain ⟨m, k, f, effects, err, hopen, heq⟩ :=
    openUdpSocket_eq (u := u) ((a.map Addr.family).getD 0) sys fresh
  have hnil : effects = effects ++ assertEffect true := (List.append_nil effects).symm
  rw [heq]
  cases err with
  | some e =>
    dsimp only
    rw [hnil]
    exact .quiet hopen (by simp)
  | none =>
    dsimp only
    split
    · rw [hnil]
      exact .quiet hopen (by simp)
    · exact startWrite_outcome b a hopen hready.2.2

theorem connect_outcome (peer : Option Addr) :
    let r := u.nanoevUdpConnect peer sys fresh
    CallOutcome u op fresh (.connect peer) r.1 r.2.1 r.2.2 := by
  unfold nanoevUdpConnect
  cases peer with
  | none => exact .quiet (a := true) .same (by simp)
  | some addr =>
    dsimp only
    split
    · exact .quiet (a := true) .same (by simp)
    · split
      · exact .quiet (a := true) .same (by simp)
      · obtain ⟨m, k, f, effects, err, hopen, heq⟩ := openUdpSocket_eq (u := u) addr.family
          sys fresh
        have hnil : effects = effects ++ assertEffect true := (List.append_nil effects).symm
        rw [heq, hnil]
        cases err with
        | some e => exact .quiet hopen (by simp)
        | none =>
          cases sys.other with
          | some e | none => exact .quiet hopen (by simp)

theorem bind_outcome (addr : Addr) :
    let r := u.nanoevUdpBind addr sys fresh
    CallOutcome u op fresh (.bind addr) r.1 r.2.1 r.2.2 := by
  unfold nanoevUdpBind
  split
  · exact .quiet (a := true) .same (by simp)
  · next hready =>
    have hsock : u.sock = none := by
      simp only [not_or, Option.not_isSome_iff_eq_none] at hready
      exact hready.1
    obtain ⟨m, k, effects, err, hopen, heq⟩ := createUdpSocket_eq addr.family sys fresh hsock
    have hnil : effects = effects ++ assertEffect true := (List.append_nil effects).symm
    rw [heq, hnil]
    cases err with
    | some e => exact .quiet hopen (by simp)
    | none =>
      cases sys.bind with
      | some e | none => exact .quiet hopen (by simp)

theorem systemCall_outcome {c : UdpCall} (hc : ∀ b cb, c ≠ .read b cb) (refused : Bool) :
    let r := u.systemCall refused sys
    CallOutcome u op fresh c r.1 r.2.1 r.2.2 := by
  unfold systemCall
  cases refused with
  | true => exact .quiet (a := true) .same (by simp)
  | false =>
    cases sys.other with
    | some e => exact .quiet (a := true) .same (by simp)
    | none => exact .quiet (a := true) .same fun b cb h ↦ absurd h (hc b cb)

theorem outcome_of_invalidArg {c : UdpCall} (h : c.run u op sys fresh = (u, [], .invalidArg)) :
    let r := c.run u op sys fresh
    CallOutcome u op fresh c r.1 r.2.1 r.2.2 := by
  rw [h]
  exact .quiet (a := true) .same (by simp)

theorem run_outcome (c : UdpCall) :
    let r := c.run u op sys fresh
    CallOutcome u op fresh c r.1 r.2.1 r.2.2 := by
  cases c with
  | read b callback =>
    cases callback with
    | true => exact read_outcome b
    | false => exact outcome_of_invalidArg (by simp [UdpCall.run, nanoevUdpRead])
  | write b a callback =>
    cases callback with
    | true => exact write_outcome b a
    | false => exact outcome_of_invalidArg (by simp [UdpCall.run, nanoevUdpWrite])
  | connect peer => exact connect_outcome peer
  | bind addr => exact bind_outcome addr
  | addr present =>
    cases present with
    | true => exact systemCall_outcome (by simp) _
    | false => exact outcome_of_invalidArg (by simp [UdpCall.run, nanoevUdpAddr])
  | setOption valid =>
    cases valid with
    | true => exact systemCall_outcome (by simp) _
    | false => exact outcome_of_invalidArg (by simp [UdpCall.run, udpSetOption])

/-! ## Completions and readiness -/

/-- What a completion handed to `u` can do. -/
inductive DispatchOutcome (u : Udp) (sys : Sys) : Dir → Udp → List IoEffect → Prop
  | read {er ec status bytes} :
    DispatchOutcome u sys .read
      { u with error := er, errorCode := ec, reading := false, onRead := none }
      (assertEffect u.reading ++ callAsserted u.onRead u.deleted status u.bufRead.buf bytes)
  | write {er ec m k err status bytes}
      (hreg : epollPollerModify u.reactorEvents u.sock u.reactorEvents.andNotWrite sys =
        ⟨err, m, k⟩) :
    DispatchOutcome u sys .write
      { u with
        error := er, errorCode := ec, reactorEvents := m, sock := k
        writing := false, onWrite := none }
      (assertEffect u.writing ++ callAsserted u.onWrite u.deleted status u.bufWrite.buf bytes)

theorem dispatch_outcome (u : Udp) (d : Dir) (sys : Sys) :
    DispatchOutcome u sys d (u.udpProactorCallback d sys).1 (u.udpProactorCallback d sys).2 := by
  obtain ⟨er, ec, hnoted⟩ : ∃ er ec,
      (if (u.ctx d).status ≠ 0 then u.setError (u.ctx d).status else u) =
        { u with error := er, errorCode := ec } := by
    split
    · exact ⟨_, _, rfl⟩
    · exact ⟨_, _, rfl⟩
  unfold udpProactorCallback
  dsimp only
  rw [hnoted]
  cases d with
  | read => exact .read
  | write =>
    dsimp only
    split
    · obtain ⟨m, k, err, hmod, hreg⟩ := registerProactor_eq
        { u with error := er, errorCode := ec } u.reactorEvents.andNotWrite sys
      rw [hreg]
      exact .write hmod
    · next hwrite =>
      have hsame : u.reactorEvents.andNotWrite = u.reactorEvents := by
        rw [Bool.not_eq_true] at hwrite
        rw [Mask.andNotWrite, ← hwrite]
      exact .write (by rw [hsame, epollPollerModify_self])

theorem reactorCb_eq (u : Udp) (d : Dir) (sys : Sys) :
    ∃ cr cw, (u.reactorCb d sys).1 = { u with ctxRead := cr, ctxWrite := cw } := by
  unfold reactorCb
  split <;> exact ⟨_, _, rfl⟩

theorem udpFree_eq (u : Udp) : u.udpFree = ({ u with sock := none }, Tcp.closing u.sock) := by
  unfold udpFree
  split
  · next k hk => rw [hk]; rfl
  · next hk =>
    rw [hk]
    refine Prod.ext ?_ rfl
    dsimp only
    rw [← hk]

end Udp

end Nanoev
