import Nanoev.Iocp.Udp
import Nanoev.Memory.Holdings
import Nanoev.Transition.Simulation

/-!
# What UDP events are for, on a completion port

To its client a UDP event is an endpoint with at most one operation under way in each direction.
`Endpoints` has no sockets, no contexts and no packets: a call that is admitted starts an operation
or fails, which puts the endpoint into the error state for good; an operation ends with one call of
its callback, with its own buffer; after `nanoev_event_free` no callback is called, and the endpoint
is released when its last operation has ended.

The events of the Windows build have no other histories (`refines_endpoints`). In particular no
assertion fails, no null pointer is followed and no memory is used after its release, whatever the
client calls and in whatever order the packets arrive: the flag of a direction, the callback that is
stored for it and the operation that the system has taken over agree at all times
(`UdpLoop.Inv`). The reactor backends do not have this property, since they read from the socket
without looking at the flag.
-/

namespace Nanoev

/-- The direction and the buffer of an operation that a call is to start. -/
def UdpCall.operation : UdpCall → Option (Dir × IoBuf)
  | read b _ => some (.read, b)
  | write b _ _ => some (.write, b)
  | _ => none

def UdpCall.given : UdpCall → Bool
  | read b callback => b.buf ≠ 0 && b.len ≠ 0 && callback
  | write b _ callback => b.buf ≠ 0 && b.len ≠ 0 && callback
  | connect peer => peer.isSome
  | bind _ => true
  | addr present => present
  | setOption valid => valid

def UdpCall.resists : UdpCall → Bool
  | setOption _ => true
  | _ => false

namespace Iocp

open Transition

/-! ## Endpoints -/

structure Pending where
  op : ℕ
  buf : ℕ
deriving DecidableEq, Repr

@[ext] structure Endpoint where
  freed : Bool
  error : Bool
  pending : Dir → Option Pending

namespace Endpoint

def new : Endpoint := ⟨false, false, fun _ ↦ none⟩

def idle (e : Endpoint) : Bool := (e.pending .read).isNone && (e.pending .write).isNone

def admits (e : Endpoint) (c : UdpCall) : Bool :=
  c.given && (!e.error || c.resists) &&
    match c with
    | .connect _ => e.idle
    | c => c.operation.all fun o ↦ (e.pending o.1).isNone

/-- What becomes of an endpoint when call `op` returns a code, if it may return it. -/
def answer (e : Endpoint) (op : ℕ) (c : UdpCall) : RetCode → Option Endpoint
  | .success =>
    if e.admits c then
      match c.operation with
      | some (d, b) =>
        some { e with pending := Function.update e.pending d (some ⟨op, b.buf⟩) }
      | none => some e
    else none
  | .fail => if e.admits c then some { e with error := true } else none
  | .invalidArg | .accessDenied => some e
  | .outOfMemory => none

def complete (e : Endpoint) (d : Dir) (status : ℤ) : Endpoint :=
  { e with
    error := e.error || decide (status ≠ 0)
    pending := Function.update e.pending d none }

end Endpoint

@[ext] structure Endpoints where
  event : ℕ → Option Endpoint
  events : ℕ
  calls : ℕ

namespace Endpoints

def init : Endpoints := ⟨fun _ ↦ none, 0, 0⟩

def live (x : Endpoints) (i : ℕ) : Option Endpoint := (x.event i).filter fun e ↦ !e.freed

def set (x : Endpoints) (i : ℕ) (e : Option Endpoint) : Endpoints :=
  { x with event := Function.update x.event i e }

/-- The endpoint has been freed, and its operations have ended. -/
def ended (x : Endpoints) (i : ℕ) : Bool := (x.event i).any fun e ↦ e.freed && e.idle

inductive Action
  | new
  | call (i : ℕ) (c : UdpCall) (ret : RetCode)
  /-- An operation ends with a result. -/
  | complete (i : ℕ) (d : Dir) (c : IoContext)
  | free (i : ℕ)
  /-- All endpoints that are over are released, in some order. -/
  | sweep (gone : List ℕ)

open Classical in
noncomputable def step (x : Endpoints) : Action → Option Endpoints
  | .new => some { x.set x.events (some .new) with events := x.events + 1 }
  | .call i c ret =>
    (x.live i).bind fun e ↦ (e.answer x.calls c ret).map fun e' ↦
      { x.set i (some e') with calls := x.calls + 1 }
  | .complete i d c =>
    (x.event i).bind fun e ↦
      if (e.pending d).isSome then some (x.set i (some (e.complete d c.status))) else none
  | .free i =>
    (x.live i).map fun e ↦ x.set i (if e.idle then none else some { e with freed := true })
  | .sweep gone =>
    if gone.Nodup ∧ ∀ i, i ∈ gone ↔ x.ended i = true then
      some { x with event := fun i ↦ if i ∈ gone then none else x.event i }
    else none

def shows (x : Endpoints) : Action → List UdpEvent
  | .new => [.created x.events]
  | .call i c ret => [.returned i c ret]
  | .complete i d c =>
    ((x.live i).bind fun e ↦ (e.pending d).map fun p ↦
      .called i ⟨p.op, c.status, p.buf, c.bytes, none⟩).toList
  | .free i => .freed i :: if (x.event i).any Endpoint.idle then [.released i] else []
  | .sweep gone => gone.map .released

end Endpoints

/-! ## The endpoint that an event stands for -/

def udpPending (u : Udp) : Dir → Option Pending
  | .read => if u.reading then u.onRead.map (⟨·, u.bufRead.buf⟩) else none
  | .write => if u.writing then u.onWrite.map (⟨·, u.bufWrite.buf⟩) else none

def udpEndpoint (u : Udp) : Endpoint := ⟨u.deleted, u.error, udpPending u⟩

structure UdpSound (u : Udp) : Prop where
  onRead : u.reading = true → u.onRead.isSome = true
  onWrite : u.writing = true → u.onWrite.isSome = true
  /-- An event without a socket is not connected, so a write on it has an address. -/
  closed : u.deleted = false → u.sock = none → u.connected = false ∧ u.reactorEvents = .empty
  /-- A socket that is used has been associated with the port. -/
  port : u.deleted = false → u.error = false → u.sock ≠ none → u.reactorEvents = .evRead

variable {u u' : Udp} {c : UdpCall} {op i : ℕ} {d : Dir} {sys : Sys} {fresh : Fresh}

theorem udpPending_isSome (hu : UdpSound u) (d : Dir) : (udpPending u d).isSome = u.flag d := by
  cases d with
  | read =>
    cases hr : u.reading with
    | false => simp [udpPending, Proactor.flag, hr]
    | true => simp [udpPending, Proactor.flag, hr, hu.onRead hr]
  | write =>
    cases hw : u.writing with
    | false => simp [udpPending, Proactor.flag, hw]
    | true => simp [udpPending, Proactor.flag, hw, hu.onWrite hw]

theorem udpPending_of_flag (hd : u.flag d = false) : udpPending u d = none := by
  cases d with
  | read | write => exact if_neg (Bool.eq_false_iff.mp hd)

theorem udpEndpoint_idle (hu : UdpSound u) :
    (udpEndpoint u).idle = !(u.reading || u.writing) := by
  have hr : (udpPending u .read).isSome = u.reading := udpPending_isSome hu .read
  have hw : (udpPending u .write).isSome = u.writing := udpPending_isSome hu .write
  rw [Endpoint.idle, udpEndpoint, ← Option.not_isSome, ← Option.not_isSome, hr, hw, Bool.not_or]

/-! ## What a call does -/

/-- What a call of the client does to an event, and what it starts. -/
structure UdpAnswered (u : Udp) (c : UdpCall) (op : ℕ) (r : Udp × List IoEffect × RetCode) :
    Prop where
  sound : UdpSound r.1
  answer : (udpEndpoint u).answer op c r.2.2 = some (udpEndpoint r.1)
  /-- Nothing fails, and no callback is called. -/
  quiet : ∀ i, r.2.1.filterMap (shown i) = []
  /-- What the system takes over is the operation of the call. -/
  started : ∀ d,
    ((udpPending u d).map Pending.op).toList ++ (if .submit d ∈ r.2.1 then [op] else []) =
      ((udpPending r.1 d).map Pending.op).toList
  port : r.2.1.any (fun e ↦ e.submitted?.isSome) = true → r.1.reactorEvents = .evRead

structure Silent (effects : List IoEffect) : Prop where
  quiet : ∀ i, effects.filterMap (shown i) = []
  none : effects.any (fun e ↦ e.submitted?.isSome) = false

theorem Silent.nil : Silent [] := ⟨fun _ ↦ rfl, rfl⟩

theorem Silent.not_submit {effects : List IoEffect} (h : Silent effects) (d : Dir) :
    .submit d ∉ effects := by
  intro hd
  exact List.any_eq_false.mp h.none _ hd rfl

theorem UdpAnswered.plain {ret : RetCode} {effects : List IoEffect} (hu' : UdpSound u')
    (hanswer : (udpEndpoint u).answer op c ret = some (udpEndpoint u'))
    (hpending : udpPending u' = udpPending u) (hfx : Silent effects) :
    UdpAnswered u c op (u', effects, ret) where
  sound := hu'
  answer := hanswer
  quiet := hfx.quiet
  started d := by rw [if_neg (hfx.not_submit d), List.append_nil, hpending]
  port h := by
    rw [hfx.none] at h
    cases h

theorem UdpAnswered.refused {ret : RetCode} {effects : List IoEffect} (hu' : UdpSound u')
    (hret : ret = .invalidArg ∨ ret = .accessDenied) (hsame : udpEndpoint u' = udpEndpoint u)
    (hfx : Silent effects) : UdpAnswered u c op (u', effects, ret) := by
  have hanswer : (udpEndpoint u).answer op c ret = some (udpEndpoint u') := by
    rcases hret with rfl | rfl <;> exact congrArg some hsame.symm
  exact .plain hu' hanswer (congrArg Endpoint.pending hsame) hfx

theorem UdpAnswered.failed {effects : List IoEffect} {e : ℤ} (hu' : UdpSound (u'.setError e))
    (hadm : (udpEndpoint u).admits c = true) (hsame : udpEndpoint u' = udpEndpoint u)
    (hfx : Silent effects) : UdpAnswered u c op (u'.setError e, effects, .fail) := by
  have hanswer : (udpEndpoint u).answer op c .fail = some (udpEndpoint (u'.setError e)) := by
    rw [Endpoint.answer, if_pos hadm, ← hsame]
    rfl
  exact .plain hu' hanswer (congrArg Endpoint.pending hsame) hfx

theorem UdpAnswered.done {effects : List IoEffect} (hu' : UdpSound u')
    (hadm : (udpEndpoint u).admits c = true) (hop : c.operation = none)
    (hsame : udpEndpoint u' = udpEndpoint u) (hfx : Silent effects) :
    UdpAnswered u c op (u', effects, .success) := by
  have hanswer : (udpEndpoint u).answer op c .success = some (udpEndpoint u') := by
    rw [Endpoint.answer, if_pos hadm, hop, hsame]
  exact .plain hu' hanswer (congrArg Endpoint.pending hsame) hfx

theorem UdpAnswered.submitted {effects : List IoEffect} {b : IoBuf} (hu' : UdpSound u')
    (hadm : (udpEndpoint u).admits c = true) (hop : c.operation = some (d, b))
    (hfreed : u'.deleted = u.deleted) (herror : u'.error = u.error)
    (hidle : udpPending u d = none)
    (hpending : udpPending u' = Function.update (udpPending u) d (some ⟨op, b.buf⟩))
    (hport : u'.reactorEvents = .evRead) (hfx : Silent effects) :
    UdpAnswered u c op (u', effects ++ [.submit d], .success) where
  sound := hu'
  answer := by
    rw [Endpoint.answer, if_pos hadm, hop]
    exact congrArg some (Endpoint.ext hfreed.symm herror.symm hpending.symm)
  quiet i := by
    rw [List.filterMap_append, hfx.quiet]
    rfl
  started k := by
    rw [hpending]
    by_cases hk : k = d
    · subst hk
      rw [if_pos (List.mem_append_right _ (List.mem_singleton_self _)), hidle,
        Function.update_self]
      rfl
    · have hnot : .submit k ∉ effects ++ [IoEffect.submit d] := by
        rw [List.mem_append, List.mem_singleton, IoEffect.submit.injEq]
        exact not_or.mpr ⟨hfx.not_submit k, hk⟩
      rw [if_neg hnot, List.append_nil, Function.update_of_ne hk]
  port _ := hport

/-! ### Opening a socket -/

/-- What opening a socket does: it is associated with the port, or the call fails. -/
structure UdpOpened (u : Udp) (r : Udp × List IoEffect × Option ℤ) : Prop where
  same : ∃ family sock events, r.1 = { u with family, sock, reactorEvents := events }
  silent : Silent r.2.1
  closed : r.1.sock = none → r.1.connected = false ∧ r.1.reactorEvents = .empty
  port : r.2.2 = none → r.1.sock ≠ none ∧ r.1.reactorEvents = .evRead

namespace UdpOpened

variable {r : Udp × List IoEffect × Option ℤ}

theorem endpoint (h : UdpOpened u r) : udpEndpoint r.1 = udpEndpoint u := by
  obtain ⟨family, sock, events, heq⟩ := h.same
  rw [heq]
  rfl

theorem sound (h : UdpOpened u r) (hu : UdpSound u) (hr : r.2.2 = none) : UdpSound r.1 := by
  have hport := h.port hr
  have hclosed := h.closed
  obtain ⟨family, sock, events, heq⟩ := h.same
  rw [heq] at hport hclosed ⊢
  exact ⟨hu.onRead, hu.onWrite, fun _ ↦ hclosed, fun _ _ _ ↦ hport.2⟩

theorem sound_setError (h : UdpOpened u r) (hu : UdpSound u) (e : ℤ) :
    UdpSound (r.1.setError e) := by
  have hclosed := h.closed
  obtain ⟨family, sock, events, heq⟩ := h.same
  rw [heq] at hclosed ⊢
  exact ⟨hu.onRead, hu.onWrite, fun _ ↦ hclosed, fun _ herror ↦ Bool.noConfusion herror⟩

end UdpOpened

theorem createUdpSocket_opened (hu : UdpSound u) (hdel : u.deleted = false) (hsock : u.sock = none)
    (family : ℕ) (sys : Sys) (fresh : Fresh) :
    UdpOpened u (createUdpSocket u family sys fresh) := by
  obtain ⟨hconnected, hevents⟩ := hu.closed hdel hsock
  unfold createUdpSocket
  simp only [hsock, hevents, decide_true, assertEffect, if_true, List.nil_append, List.append_nil]
  cases sys.socket with
  | some e => exact ⟨⟨_, _, _, rfl⟩, .nil, fun _ ↦ ⟨hconnected, hevents⟩, by simp⟩
  | none =>
    cases sys.epollCtl with
    | some e => exact ⟨⟨_, _, _, rfl⟩, ⟨fun _ ↦ rfl, rfl⟩, by simp, by simp⟩
    | none => exact ⟨⟨_, _, _, rfl⟩, ⟨fun _ ↦ rfl, rfl⟩, by simp, fun _ ↦ ⟨by simp, rfl⟩⟩

theorem openUdpSocket_opened (hu : UdpSound u) (hdel : u.deleted = false) (herror : u.error = false)
    (family : ℕ) (sys : Sys) (fresh : Fresh) : UdpOpened u (openUdpSocket u family sys fresh) := by
  unfold openUdpSocket
  split_ifs with hsock
  · exact createUdpSocket_opened hu hdel hsock family sys fresh
  · exact ⟨⟨_, _, _, rfl⟩, .nil, fun h ↦ absurd h hsock, fun _ ↦ ⟨hsock, hu.port hdel herror hsock⟩⟩

/-! ### The functions -/

theorem UdpSound.setError (hu : UdpSound u) (e : ℤ) : UdpSound (u.setError e) :=
  ⟨hu.onRead, hu.onWrite, hu.closed, fun _ h ↦ Bool.noConfusion h⟩

theorem admits_of_operation {b : IoBuf} (hop : c.operation = some (d, b)) (hgiven : c.given = true)
    (herror : u.error = false) (hidle : udpPending u d = none) :
    (udpEndpoint u).admits c = true := by
  cases c <;> simp_all [Endpoint.admits, UdpCall.operation, udpEndpoint]

theorem given_of_not {b : IoBuf} {callback : Bool}
    (h : ¬ (b.buf = 0 ∨ b.len = 0 ∨ (if callback then some op else none) = none)) :
    callback = true ∧ (b.buf ≠ 0 && b.len ≠ 0 && true) = true := by
  cases callback with
  | false => simp at h
  | true => simpa using h

/-- The buffer and the context of a direction may be written when no operation has them. -/
theorem udpEndpoint_bufRead (hreading : u.reading = false) (b : IoBuf) (ctx : IoContext) :
    udpEndpoint { u with bufRead := b, ctxRead := ctx } = udpEndpoint u := by
  refine Endpoint.ext rfl rfl (funext fun d ↦ ?_)
  cases d with
  | read => simp [udpEndpoint, udpPending, hreading]
  | write => rfl

theorem udpEndpoint_bufWrite (hwriting : u.writing = false) (b : IoBuf) (ctx : IoContext) :
    udpEndpoint { u with bufWrite := b, ctxWrite := ctx } = udpEndpoint u := by
  refine Endpoint.ext rfl rfl (funext fun d ↦ ?_)
  cases d with
  | read => rfl
  | write => simp [udpEndpoint, udpPending, hwriting]

theorem nanoevUdpRead_answered (hu : UdpSound u) (hdel : u.deleted = false) (b : IoBuf)
    (callback : Bool) (sys : Sys) :
    UdpAnswered u (.read b callback) op
      (nanoevUdpRead u b (if callback then some op else none) sys) := by
  unfold nanoevUdpRead
  by_cases hgiven : b.buf = 0 ∨ b.len = 0 ∨ (if callback then some op else none) = none
  · rw [if_pos hgiven]
    exact .refused hu (.inl rfl) rfl .nil
  by_cases hready : u.sock = none ∨ u.error ∨ u.deleted ∨ u.reading
  · rw [if_neg hgiven, if_pos hready]
    exact .refused hu (.inr rfl) rfl .nil
  rw [if_neg hgiven, if_neg hready]
  dsimp only
  simp only [not_or, Bool.not_eq_true] at hready
  obtain ⟨hsock, herror, -, hreading⟩ := hready
  obtain ⟨rfl, hargs⟩ := given_of_not hgiven
  have hidle : udpPending u .read = none := udpPending_of_flag hreading
  have hadm : (udpEndpoint u).admits (.read b true) = true :=
    admits_of_operation rfl hargs herror hidle
  have hu₁ : UdpSound { u with bufRead := b, ctxRead := ⟨0, 0⟩ } :=
    ⟨hu.onRead, hu.onWrite, hu.closed, hu.port⟩
  have hsubmit : UdpAnswered u (.read b true) op
      ({ u with bufRead := b, ctxRead := ⟨0, 0⟩, reading := true, onRead := some op },
        [] ++ [.submit .read], .success) := by
    refine .submitted ⟨fun _ ↦ rfl, hu.onWrite, hu.closed, hu.port⟩ hadm rfl rfl rfl hidle
      (funext fun d ↦ ?_) (hu.port hdel herror hsock) .nil
    cases d <;> rfl
  cases sys.io with
  | failed e => exact .failed (hu₁.setError _) hadm (udpEndpoint_bufRead hreading ..) .nil
  | done n | wouldBlock => exact hsubmit

theorem nanoevUdpWrite_answered (hu : UdpSound u) (hdel : u.deleted = false) (b : IoBuf)
    (toAddr : Option Addr) (callback : Bool) (sys : Sys) (fresh : Fresh) :
    UdpAnswered u (.write b toAddr callback) op
      (nanoevUdpWrite u b toAddr (if callback then some op else none) sys fresh) := by
  unfold nanoevUdpWrite
  by_cases hgiven : b.buf = 0 ∨ b.len = 0 ∨ (if callback then some op else none) = none
  · rw [if_pos hgiven]
    exact .refused hu (.inl rfl) rfl .nil
  by_cases haddr : toAddr = none ∧ u.connected = false
  · rw [if_neg hgiven, if_pos haddr]
    exact .refused hu (.inl rfl) rfl .nil
  by_cases hready : u.error ∨ u.deleted ∨ u.writing
  · rw [if_neg hgiven, if_neg haddr, if_pos hready]
    exact .refused hu (.inr rfl) rfl .nil
  rw [if_neg hgiven, if_neg haddr, if_neg hready]
  dsimp only
  simp only [not_or, Bool.not_eq_true] at hready
  obtain ⟨herror, -, hwriting⟩ := hready
  obtain ⟨rfl, hargs⟩ := given_of_not hgiven
  have hidle : udpPending u .write = none := udpPending_of_flag hwriting
  have hadm : (udpEndpoint u).admits (.write b toAddr true) = true :=
    admits_of_operation rfl hargs herror hidle
  -- an event that is connected has a socket, so the null pointer is not followed
  have haddress : (u.sock.isSome || toAddr.isSome) = true := by
    cases hsock : u.sock with
    | some k => rfl
    | none =>
      cases toAddr with
      | some a => rfl
      | none => exact absurd ⟨rfl, (hu.closed hdel hsock).1⟩ haddr
  rw [haddress]
  have hopened := openUdpSocket_opened hu hdel herror ((toAddr.map Addr.family).getD 0) sys fresh
  generalize openUdpSocket u ((toAddr.map Addr.family).getD 0) sys fresh = r at hopened
  obtain ⟨u₁, opened, ret⟩ := r
  cases ret with
  | some e => exact .failed (hopened.sound_setError hu e) hadm hopened.endpoint hopened.silent
  | none =>
    have hu₁ : UdpSound u₁ := hopened.sound hu rfl
    obtain ⟨-, hport⟩ : u₁.sock ≠ none ∧ u₁.reactorEvents = .evRead := hopened.port rfl
    have hfx : Silent opened := hopened.silent
    obtain ⟨family, sock, events, rfl⟩ : ∃ family sock events,
      u₁ = { u with family, sock, reactorEvents := events } := hopened.same
    dsimp only
    by_cases hfamily : toAddr.any fun a ↦ a.family ≠ family
    · rw [if_pos hfamily]
      exact .refused hu₁ (.inl rfl) rfl hfx
    rw [if_neg hfamily]
    have hsubmit : UdpAnswered u (.write b toAddr true) op
        ({ u with
            family, sock, reactorEvents := events, bufWrite := b, ctxWrite := ⟨0, 0⟩
            writing := true, onWrite := some op },
          opened ++ [.submit .write], .success) := by
      refine .submitted ⟨hu₁.onRead, fun _ ↦ rfl, hu₁.closed, hu₁.port⟩ hadm rfl rfl rfl hidle
        (funext fun d ↦ ?_) hport hfx
      cases d <;> rfl
    cases sys.io with
    | failed e =>
      refine .failed ⟨hu₁.onRead, hu₁.onWrite, hu₁.closed, fun _ h ↦ Bool.noConfusion h⟩ hadm ?_ hfx
      exact udpEndpoint_bufWrite hwriting b ⟨0, 0⟩
    | done n | wouldBlock => exact hsubmit

theorem nanoevUdpConnect_answered (hu : UdpSound u) (hdel : u.deleted = false)
    (peer : Option Addr) (sys : Sys) (fresh : Fresh) :
    UdpAnswered u (.connect peer) op (nanoevUdpConnect u peer sys fresh) := by
  unfold nanoevUdpConnect
  cases peer with
  | none => exact .refused hu (.inl rfl) rfl .nil
  | some a =>
    dsimp only
    split_ifs with hready hfamily
    · exact .refused hu (.inr rfl) rfl .nil
    · exact .refused hu (.inl rfl) rfl .nil
    simp only [not_or, Bool.not_eq_true] at hready
    obtain ⟨herror, -, hreading, hwriting⟩ := hready
    have hadm : (udpEndpoint u).admits (.connect (some a)) = true := by
      have hidle : (udpEndpoint u).idle = true := by
        rw [udpEndpoint_idle hu, hreading, hwriting]
        rfl
      have hok : (udpEndpoint u).error = false := herror
      simp [Endpoint.admits, UdpCall.given, hidle, hok]
    have hopened := openUdpSocket_opened hu hdel herror a.family sys fresh
    generalize openUdpSocket u a.family sys fresh = r at hopened
    obtain ⟨u₁, opened, ret⟩ := r
    cases ret with
    | some e => exact .failed (hopened.sound_setError hu e) hadm hopened.endpoint hopened.silent
    | none =>
      have hu₁ : UdpSound u₁ := hopened.sound hu rfl
      obtain ⟨hsock, -⟩ : u₁.sock ≠ none ∧ u₁.reactorEvents = .evRead := hopened.port rfl
      cases sys.other with
      | some e => exact .failed (hu₁.setError e.1) hadm hopened.endpoint hopened.silent
      | none =>
        have hu₂ : UdpSound { u₁ with connected := true } :=
          ⟨hu₁.onRead, hu₁.onWrite, fun _ h ↦ absurd h hsock, hu₁.port⟩
        exact .done hu₂ hadm rfl hopened.endpoint hopened.silent

theorem nanoevUdpBind_answered (hu : UdpSound u) (hdel : u.deleted = false) (a : Addr) (sys : Sys)
    (fresh : Fresh) : UdpAnswered u (.bind a) op (nanoevUdpBind u a sys fresh) := by
  unfold nanoevUdpBind
  split_ifs with hready
  · exact .refused hu (.inr rfl) rfl .nil
  simp only [not_or, Bool.not_eq_true, Option.isSome_eq_false_iff, Option.isNone_iff_eq_none]
    at hready
  obtain ⟨hsock, herror, -⟩ := hready
  have hadm : (udpEndpoint u).admits (.bind a) = true := by
    simp [Endpoint.admits, UdpCall.given, UdpCall.operation, udpEndpoint, herror]
  have hopened := createUdpSocket_opened hu hdel hsock a.family sys fresh
  generalize createUdpSocket u a.family sys fresh = r at hopened
  obtain ⟨u₁, opened, ret⟩ := r
  cases ret with
  | some e => exact .failed (hopened.sound_setError hu e) hadm hopened.endpoint hopened.silent
  | none =>
    have hu₁ : UdpSound u₁ := hopened.sound hu rfl
    cases sys.bind with
    | some e => exact .failed (hu₁.setError e.1) hadm hopened.endpoint hopened.silent
    | none => exact .done hu₁ hadm rfl hopened.endpoint hopened.silent

theorem systemCall_answered (hu : UdpSound u) {refused : Bool} (hop : c.operation = none)
    (hadm : refused = false → (udpEndpoint u).admits c = true) (sys : Sys) :
    UdpAnswered u c op (u.systemCall refused sys) := by
  unfold Udp.systemCall
  cases refused with
  | true => exact .refused hu (.inr rfl) rfl .nil
  | false =>
    cases hother : sys.other with
    | some e => exact .failed (hu.setError e.1) (hadm rfl) rfl .nil
    | none => exact .done hu (hadm rfl) hop rfl .nil

theorem nanoevUdpAddr_answered (hu : UdpSound u) (present : Bool) (sys : Sys) :
    UdpAnswered u (.addr present) op (u.nanoevUdpAddr present sys) := by
  unfold Udp.nanoevUdpAddr
  cases present with
  | false => exact .refused hu (.inl rfl) rfl .nil
  | true =>
    refine systemCall_answered hu rfl (fun h ↦ ?_) sys
    simp only [Bool.or_eq_false_iff] at h
    simp [Endpoint.admits, UdpCall.given, UdpCall.operation, udpEndpoint, h]

theorem udpSetOption_answered (hu : UdpSound u) (valid : Bool) (sys : Sys) :
    UdpAnswered u (.setOption valid) op (u.udpSetOption valid sys) := by
  unfold Udp.udpSetOption
  cases valid with
  | false => exact .refused hu (.inl rfl) rfl .nil
  | true =>
    refine systemCall_answered hu rfl (fun _ ↦ ?_) sys
    simp [Endpoint.admits, UdpCall.given, UdpCall.operation, UdpCall.resists]

theorem runUdp_answered (hu : UdpSound u) (hdel : u.deleted = false) (c : UdpCall) (op : ℕ)
    (sys : Sys) (fresh : Fresh) : UdpAnswered u c op (runUdp c u op sys fresh) := by
  cases c with
  | read b callback => exact nanoevUdpRead_answered hu hdel b callback sys
  | write b toAddr callback => exact nanoevUdpWrite_answered hu hdel b toAddr callback sys fresh
  | connect peer => exact nanoevUdpConnect_answered hu hdel peer sys fresh
  | bind a => exact nanoevUdpBind_answered hu hdel a sys fresh
  | addr present => exact nanoevUdpAddr_answered hu present sys
  | setOption valid => exact udpSetOption_answered hu valid sys

/-! ## What a packet does -/

/-- The callback of the operation is called, unless the event has been freed. -/
structure UdpCompleted (u : Udp) (d : Dir) (p : Pending) (c : IoContext) (r : Udp × List IoEffect) :
    Prop where
  sound : UdpSound r.1
  endpoint : udpEndpoint r.1 = (udpEndpoint u).complete d c.status
  called : ∀ i, r.2.filterMap (shown i) =
    if u.deleted then [] else [.called i ⟨p.op, c.status, p.buf, c.bytes, none⟩]

theorem udpProactorCallback_read (u : Udp) (c : IoContext) :
    udpProactorCallback (storeUdp u .read c) .read =
      ({ u with
          ctxRead := c
          error := u.error || decide (c.status ≠ 0)
          errorCode := if c.status ≠ 0 then c.status else u.errorCode
          reading := false
          onRead := none },
        assertEffect u.reading ++
          Udp.callAsserted u.onRead u.deleted c.status u.bufRead.buf c.bytes) := by
  by_cases hstatus : c.status = 0 <;>
    simp [udpProactorCallback, storeUdp, Udp.ctx, Udp.setError, hstatus]

theorem udpProactorCallback_write (u : Udp) (c : IoContext) :
    udpProactorCallback (storeUdp u .write c) .write =
      ({ u with
          ctxWrite := c
          error := u.error || decide (c.status ≠ 0)
          errorCode := if c.status ≠ 0 then c.status else u.errorCode
          writing := false
          onWrite := none },
        assertEffect u.writing ++
          Udp.callAsserted u.onWrite u.deleted c.status u.bufWrite.buf c.bytes) := by
  by_cases hstatus : c.status = 0 <;>
    simp [udpProactorCallback, storeUdp, Udp.ctx, Udp.setError, hstatus]

theorem callAsserted_shown (op i : ℕ) (deleted : Bool) (status : ℤ) (buf bytes : ℕ) :
    (assertEffect true ++ Udp.callAsserted (some op) deleted status buf bytes).filterMap (shown i) =
      if deleted then [] else [.called i ⟨op, status, buf, bytes, none⟩] := by
  cases deleted <;> rfl

theorem udpProactorCallback_completed (hu : UdpSound u) {p : Pending}
    (hp : udpPending u d = some p) (c : IoContext) :
    UdpCompleted u d p c (udpProactorCallback (storeUdp u d c) d) := by
  have hport : ∀ {e : Bool}, u.deleted = false → (u.error || e) = false → u.sock ≠ none →
      u.reactorEvents = .evRead := fun hdel h ↦ hu.port hdel (Bool.or_eq_false_iff.mp h).1
  cases d with
  | read =>
    simp only [udpPending, Option.ite_none_right_eq_some, Option.map_eq_some_iff] at hp
    obtain ⟨hreading, op, hcallback, rfl⟩ := hp
    rw [udpProactorCallback_read, hreading, hcallback]
    refine ⟨⟨fun h ↦ Bool.noConfusion h, hu.onWrite, hu.closed, hport⟩,
      Endpoint.ext rfl rfl (funext fun k ↦ ?_), fun i ↦ callAsserted_shown ..⟩
    cases k <;> rfl
  | write =>
    simp only [udpPending, Option.ite_none_right_eq_some, Option.map_eq_some_iff] at hp
    obtain ⟨hwriting, op, hcallback, rfl⟩ := hp
    rw [udpProactorCallback_write, hwriting, hcallback]
    refine ⟨⟨hu.onRead, fun h ↦ Bool.noConfusion h, hu.closed, hport⟩,
      Endpoint.ext rfl rfl (funext fun k ↦ ?_), fun i ↦ callAsserted_shown ..⟩
    cases k <;> rfl

/-! ## The invariant of a loop -/

namespace UdpLoop

def endpoints (s : UdpLoop) : Endpoints :=
  ⟨fun i ↦ (s.mem i).map udpEndpoint, s.nextEvent, s.nextOp⟩

structure Inv (s : UdpLoop) : Prop where
  sound : ∀ i u, s.mem i = some u → UdpSound u
  /-- What the system has taken over are the operations under way, and their event is there. -/
  outstanding : ∀ i d, s.outstanding i d =
    (((s.mem i).bind fun u ↦ udpPending u d).map Pending.op).toList
  endgame : ∀ i, i ∈ s.endgame ↔ ∃ u, s.mem i = some u ∧ u.deleted = true
  nodup : s.endgame.Nodup
  fresh : ∀ i, s.nextEvent ≤ i → s.mem i = none

theorem init_inv : init.Inv where
  sound := by simp [init]
  outstanding := fun _ _ ↦ rfl
  endgame := by simp [init]
  nodup := List.nodup_nil
  fresh := fun _ _ ↦ rfl

variable {s s' : UdpLoop}

theorem live_eq_some (h : s.live i = some u) : s.mem i = some u ∧ u.deleted = false := by
  obtain ⟨hmem, hdel⟩ := Option.filter_eq_some_iff.mp h
  exact ⟨hmem, by simpa using hdel⟩

theorem endpoints_live (h : s.live i = some u) : s.endpoints.live i = some (udpEndpoint u) := by
  obtain ⟨hmem, hdel⟩ := live_eq_some h
  have hi : s.endpoints.event i = some (udpEndpoint u) := congrArg (Option.map udpEndpoint) hmem
  rw [Endpoints.live, hi, Option.filter_some, if_pos]
  simp [udpEndpoint, hdel]

theorem endpoints_eq_set (s s' : UdpLoop) (i : ℕ) (x : Option Udp)
    (hmem : s'.mem = Function.update s.mem i x) :
    s'.endpoints =
      { s.endpoints.set i (x.map udpEndpoint) with
        events := s'.nextEvent
        calls := s'.nextOp } := by
  refine Endpoints.ext (funext fun j ↦ ?_) rfl rfl
  change (s'.mem j).map udpEndpoint = Function.update s.endpoints.event i (x.map udpEndpoint) j
  rw [hmem]
  by_cases hj : j = i
  · subst hj
    rw [Function.update_self, Function.update_self]
  · rw [Function.update_of_ne hj, Function.update_of_ne hj]
    rfl

theorem Inv.lt (hs : s.Inv) (hmem : s.mem i = some u) : i < s.nextEvent := by
  by_contra h
  rw [hs.fresh i (not_lt.mp h)] at hmem
  cases hmem

/-- The memory at `i` is written, and the operations of the event become `out`. -/
theorem Inv.update (hs : s.Inv) {x : Option Udp} {out : Dir → List ℕ} {endgame : List ℕ}
    {n : ℕ} (fd ops : ℕ) (hx : ∀ u, x = some u → UdpSound u)
    (hout : ∀ d, out d = ((x.bind fun u ↦ udpPending u d).map Pending.op).toList)
    (hsame : ∀ j ≠ i, j ∈ endgame ↔ j ∈ s.endgame)
    (hendgame : i ∈ endgame ↔ ∃ u, x = some u ∧ u.deleted = true) (hnodup : endgame.Nodup)
    (hn : s.nextEvent ≤ n) (hi : i < n) :
    Inv ⟨Function.update s.mem i x, endgame, Function.update s.outstanding i out, n, fd, ops⟩ := by
  refine ⟨fun j u hu ↦ ?_, fun j d ↦ ?_, fun j ↦ ?_, hnodup, fun j hj ↦ ?_⟩ <;>
    dsimp only at *
  · exact Memory.forall_update (P := fun _ u ↦ UdpSound u) hs.sound hx j u hu
  · by_cases hj : j = i
    · subst hj
      rw [Function.update_self, Function.update_self, hout]
    · rw [Function.update_of_ne hj, Function.update_of_ne hj, hs.outstanding]
  · by_cases hj : j = i
    · subst hj
      rw [Function.update_self, hendgame]
    · rw [Function.update_of_ne hj, hsame j hj, hs.endgame]
  · rw [Function.update_of_ne (by omega), hs.fresh j (by omega)]

/-- An event that is not freed or released in the step goes on with its operations `out`. -/
theorem Inv.replace (hs : s.Inv) (hmem : s.mem i = some u) (hu' : UdpSound u')
    (hdel : u'.deleted = u.deleted) {out : Dir → List ℕ}
    (hout : ∀ d, out d = ((udpPending u' d).map Pending.op).toList) (fd ops : ℕ) :
    Inv { s with
      mem := Function.update s.mem i (some u')
      outstanding := Function.update s.outstanding i out
      nextFd := fd
      nextOp := ops } := by
  refine hs.update fd ops (fun v hv ↦ Option.some.inj hv ▸ hu') hout (fun _ _ ↦ Iff.rfl) ?_ hs.nodup
    le_rfl (hs.lt hmem)
  rw [hs.endgame, hmem]
  simp [hdel]

theorem udpSound_new : UdpSound .udpNew :=
  ⟨fun h ↦ Bool.noConfusion h, fun h ↦ Bool.noConfusion h, fun _ _ ↦ ⟨rfl, rfl⟩,
    fun _ _ h ↦ absurd rfl h⟩

theorem Inv.eventNew (hs : s.Inv) : s.eventNew.Inv := by
  have hnone := hs.fresh s.nextEvent le_rfl
  have hout : ∀ d, s.outstanding s.nextEvent d = [] := by
    intro d
    rw [hs.outstanding, hnone]
    rfl
  have h : Inv ⟨Function.update s.mem s.nextEvent (some .udpNew), s.endgame,
      Function.update s.outstanding s.nextEvent (s.outstanding s.nextEvent), s.nextEvent + 1,
      s.nextFd, s.nextOp⟩ := by
    refine hs.update _ _ (fun v hv ↦ Option.some.inj hv ▸ udpSound_new)
      (fun d ↦ (hout d).trans ?_) (fun _ _ ↦ Iff.rfl) ?_ hs.nodup (Nat.le_succ _)
      (Nat.lt_succ_self _)
    · cases d <;> rfl
    · simp [hs.endgame, hnone, Udp.udpNew, Proactor.new]
  rwa [Function.update_eq_self] at h

theorem udpPending_free (u : Udp) : udpPending { u.udpFree.1 with deleted := true } =
    udpPending u := by
  funext d
  unfold Udp.udpFree
  cases u.sock <;> cases d <;> rfl

theorem udpSound_free (hu : UdpSound u) : UdpSound { u.udpFree.1 with deleted := true } := by
  unfold Udp.udpFree
  cases u.sock with
  | none | some k =>
    exact ⟨hu.onRead, hu.onWrite, fun h ↦ Bool.noConfusion h, fun h ↦ Bool.noConfusion h⟩

theorem Inv.not_mem_endgame (hs : s.Inv) (hmem : s.mem i = some u) (hdel : u.deleted = false) :
    i ∉ s.endgame := by
  rw [hs.endgame, hmem]
  simp [hdel]

theorem Inv.eventFree (hs : s.Inv) (hmem : s.mem i = some u) (hdel : u.deleted = false) :
    (s.eventFree i u).Inv := by
  have hu := hs.sound i u hmem
  have hi := hs.lt hmem
  have hnot := hs.not_mem_endgame hmem hdel
  have hout : ∀ d, s.outstanding i d = ((udpPending u d).map Pending.op).toList := by
    intro d
    rw [hs.outstanding, hmem]
    rfl
  unfold UdpLoop.eventFree
  split_ifs with hbusy
  · have h : Inv ⟨Function.update s.mem i (some { u.udpFree.1 with deleted := true }),
        i :: s.endgame, Function.update s.outstanding i (s.outstanding i), s.nextEvent, s.nextFd,
        s.nextOp⟩ := by
      refine hs.update _ _ (fun v hv ↦ Option.some.inj hv ▸ udpSound_free hu) (fun d ↦ ?_)
        (fun j hj ↦ by simp [hj]) ?_ (List.nodup_cons.mpr ⟨hnot, hs.nodup⟩) le_rfl hi
      · rw [hout, Option.bind_some, udpPending_free]
      · simp
    rwa [Function.update_eq_self] at h
  · have h : Inv ⟨Function.update s.mem i none, s.endgame,
        Function.update s.outstanding i (s.outstanding i), s.nextEvent, s.nextFd, s.nextOp⟩ := by
      refine hs.update _ _ (fun v hv ↦ by cases hv) (fun d ↦ ?_) (fun _ _ ↦ Iff.rfl) ?_ hs.nodup
        le_rfl hi
      · rw [hout, udpPending_of_flag]
        · rfl
        · cases d with
          | read => exact (Bool.or_eq_false_iff.mp (Bool.eq_false_iff.mpr hbusy)).1
          | write => exact (Bool.or_eq_false_iff.mp (Bool.eq_false_iff.mpr hbusy)).2
      · simp [hnot]
    rwa [Function.update_eq_self] at h

theorem Inv.processEndgame (hs : s.Inv) : s.processEndgame.Inv := by
  refine ⟨fun j u hu ↦ ?_, fun j d ↦ ?_, fun j ↦ ?_, hs.nodup.filter _, fun j hj ↦ ?_⟩ <;>
    unfold UdpLoop.processEndgame at * <;> dsimp only at *
  · exact hs.sound j u (Option.ite_none_left_eq_some.mp hu).2
  · rw [hs.outstanding]
    split_ifs with hj
    · obtain ⟨-, hidle⟩ := hj
      obtain ⟨u, hmem, hflags⟩ := (Option.any_eq_true _ _).mp hidle
      rw [hmem, Option.bind_some, udpPending_of_flag]
      · rfl
      · rw [Bool.and_eq_true, Bool.not_eq_true', Bool.not_eq_true'] at hflags
        cases d with
        | read => exact hflags.1
        | write => exact hflags.2
    · rfl
  · have h := hs.endgame j
    rw [List.mem_filter]
    by_cases hidle : s.idle j = true
    · by_cases hj : j ∈ s.endgame
      · simp [hidle, hj]
      · simpa [hidle, hj] using h
    · simpa [hidle] using h
  · rw [hs.fresh j hj, ite_self]

/-! ## The simulation -/

/-- A step to `s'` that shows `l` is a step of the endpoints. -/
def Matched (s : UdpLoop) (l : List UdpEvent) (s' : UdpLoop) : Prop :=
  s'.Inv ∧ ∃ b, s.endpoints.step b = some s'.endpoints ∧ s.endpoints.shows b = l

theorem freed_of_answer {e e' : Endpoint} {ret : RetCode} (h : e.answer op c ret = some e') :
    e'.freed = e.freed := by
  unfold Endpoint.answer at h
  split at h
  · obtain ⟨-, h⟩ := Option.ite_none_right_eq_some.mp h
    split at h <;> obtain rfl := Option.some.inj h <;> rfl
  · obtain ⟨-, h⟩ := Option.ite_none_right_eq_some.mp h
    obtain rfl := Option.some.inj h
    rfl
  · obtain rfl := Option.some.inj h
    rfl
  · obtain rfl := Option.some.inj h
    rfl
  · cases h

theorem udpEndpoint_new : udpEndpoint .udpNew = .new := by
  refine Endpoint.ext rfl rfl (funext fun d ↦ ?_)
  cases d <;> rfl

theorem matched_new (hs : s.Inv) : s.Matched [.created s.nextEvent] s.eventNew := by
  refine ⟨hs.eventNew, .new, ?_, rfl⟩
  rw [endpoints_eq_set s s.eventNew s.nextEvent (some .udpNew) rfl, Option.map_some,
    udpEndpoint_new]
  rfl

theorem callShows_eq {r : Udp × List IoEffect × RetCode} (hr : UdpAnswered u c op r) :
    callShows i c r = [.returned i c r.2.2] := by
  unfold callShows
  rw [hr.quiet, if_neg]
  · rfl
  · rw [Bool.and_eq_true, decide_eq_true_eq]
    rintro ⟨hsubmit, hport⟩
    exact hport (hr.port hsubmit)

theorem matched_call (hs : s.Inv) (hlive : s.live i = some u) (c : UdpCall) (sys : Sys) :
    s.Matched (s.shows (.call i c sys)) (s.call i u c sys) := by
  obtain ⟨hmem, hdel⟩ := live_eq_some hlive
  have hr := runUdp_answered (hs.sound i u hmem) hdel c s.nextOp sys s.fresh
  refine ⟨hs.replace hmem hr.sound (freed_of_answer hr.answer) (fun d ↦ ?_) _ _,
    .call i c (runUdp c u s.nextOp sys s.fresh).2.2, ?_, ?_⟩
  · rw [hs.outstanding, hmem]
    exact hr.started d
  · have hanswer : (udpEndpoint u).answer s.endpoints.calls c _ = _ := hr.answer
    rw [Endpoints.step, endpoints_live hlive, Option.bind_some, hanswer, Option.map_some]
    exact congrArg some (endpoints_eq_set s (s.call i u c sys) i (some _) rfl).symm
  · rw [shows, hmem]
    exact (callShows_eq hr).symm

theorem matched_packet (hs : s.Inv) (hop : op ∈ s.outstanding i d) (c : IoContext) :
    s.Matched (s.shows (.packet i d op c)) (s.packet i d op c) := by
  have hout := hs.outstanding i d
  -- the event of an outstanding operation is there
  obtain ⟨u, p, hmem, hp, rfl⟩ : ∃ u p, s.mem i = some u ∧ udpPending u d = some p ∧ op = p.op := by
    rw [hout, Option.mem_toList, Option.map_eq_some_iff] at hop
    obtain ⟨p, hp, rfl⟩ := hop
    obtain ⟨u, hmem, hp⟩ := Option.bind_eq_some_iff.mp hp
    exact ⟨u, p, hmem, hp, rfl⟩
  have hr := udpProactorCallback_completed (hs.sound i u hmem) hp c
  have hpending : udpPending (udpProactorCallback (storeUdp u d c) d).1 =
    Function.update (udpPending u) d none := congrArg Endpoint.pending hr.endpoint
  have hevent : s.endpoints.event i = some (udpEndpoint u) := congrArg (Option.map udpEndpoint) hmem
  have hpd : (udpEndpoint u).pending d = some p := hp
  rw [packet, hmem]
  refine ⟨hs.replace hmem hr.sound (congrArg Endpoint.freed hr.endpoint) (fun k ↦ ?_) _ _,
    .complete i d c, ?_, ?_⟩
  · rw [hpending]
    by_cases hk : k = d
    · subst hk
      rw [Function.update_self, Function.update_self, hout, hmem, Option.bind_some, hp]
      simp
    · rw [Function.update_of_ne hk, Function.update_of_ne hk, hs.outstanding, hmem]
      rfl
  · rw [Endpoints.step, hevent, Option.bind_some, hpd, if_pos Option.isSome_some,
      ← hr.endpoint]
    have hset := endpoints_eq_set s (s.packet i d p.op c) i
      (some (udpProactorCallback (storeUdp u d c) d).1) (by rw [packet, hmem])
    rw [packet, hmem] at hset
    exact congrArg some hset.symm
  · rw [shows, hmem]
    refine Eq.trans ?_ (hr.called i).symm
    rw [Endpoints.shows, Endpoints.live, hevent, Option.filter_some]
    cases hdel : u.deleted with
    | true => simp [udpEndpoint, hdel]
    | false =>
      rw [if_pos (by simp [udpEndpoint, hdel]), Option.bind_some, hpd]
      rfl

theorem udpEndpoint_free (u : Udp) : udpEndpoint { u.udpFree.1 with deleted := true } =
    { udpEndpoint u with freed := true } := by
  refine Endpoint.ext rfl ?_ (udpPending_free u)
  unfold Udp.udpFree
  cases u.sock <;> rfl

theorem matched_free (hs : s.Inv) (hlive : s.live i = some u) :
    s.Matched (s.shows (.free i)) (s.eventFree i u) := by
  obtain ⟨hmem, hdel⟩ := live_eq_some hlive
  have hevent : s.endpoints.event i = some (udpEndpoint u) := congrArg (Option.map udpEndpoint) hmem
  have hidle := udpEndpoint_idle (hs.sound i u hmem)
  refine ⟨hs.eventFree hmem hdel, .free i, ?_, ?_⟩
  · rw [Endpoints.step, endpoints_live hlive, Option.map_some, hidle, UdpLoop.eventFree]
    cases u.reading || u.writing with
    | true =>
      have hset := endpoints_eq_set s { s with
        mem := Function.update s.mem i (some { u.udpFree.1 with deleted := true })
        endgame := i :: s.endgame } i _ rfl
      rw [Option.map_some, udpEndpoint_free] at hset
      exact congrArg some hset.symm
    | false =>
      exact congrArg some (endpoints_eq_set s { s with mem := Function.update s.mem i none } i none
        rfl).symm
  · rw [shows, Endpoints.shows, hmem, hevent, Option.any_some, hidle]
    dsimp only
    rw [hdel]
    cases u.reading || u.writing <;> rfl

theorem mem_filter_idle (hs : s.Inv) :
    i ∈ s.endgame.filter s.idle ↔ s.endpoints.ended i = true := by
  have hevent : s.endpoints.event i = (s.mem i).map udpEndpoint := rfl
  rw [List.mem_filter, hs.endgame, idle, Endpoints.ended, hevent]
  cases hmem : s.mem i with
  | none => simp
  | some u =>
    have hidle := udpEndpoint_idle (hs.sound i u hmem)
    rw [Option.map_some, Option.any_some, Option.any_some, hidle, Bool.not_or, Bool.and_eq_true]
    simp [udpEndpoint]

theorem matched_processEndgame (hs : s.Inv) :
    s.Matched (s.shows .processEndgame) s.processEndgame := by
  refine ⟨hs.processEndgame, .sweep (s.endgame.filter s.idle), ?_, rfl⟩
  rw [Endpoints.step, if_pos ⟨hs.nodup.filter _, fun i ↦ mem_filter_idle hs⟩]
  refine congrArg some (Endpoints.ext (funext fun i ↦ ?_) rfl rfl)
  simp only [List.mem_filter, endpoints, UdpLoop.processEndgame]
  split_ifs <;> rfl

/-- Every step of the source is a step of the endpoints, and shows the same. -/
theorem matched_of_step {a : Action} (hs : s.Inv) (h : s.step a = some s') :
    s.Matched (s.shows a) s' := by
  cases a with
  | new =>
    obtain rfl := Option.some.inj h
    exact matched_new hs
  | call i c sys =>
    obtain ⟨u, hlive, rfl⟩ := Option.map_eq_some_iff.mp h
    exact matched_call hs hlive c sys
  | packet i d op c =>
    obtain ⟨hop, rfl⟩ := of_guard h
    exact matched_packet hs hop c
  | free i =>
    obtain ⟨u, hlive, rfl⟩ := Option.map_eq_some_iff.mp h
    exact matched_free hs hlive
  | processEndgame =>
    obtain rfl := Option.some.inj h
    exact matched_processEndgame hs

theorem simulation : Simulation step shows anyStep Endpoints.step Endpoints.shows anyStep
    fun s x ↦ s.Inv ∧ s.endpoints = x where
  step := by
    rintro s a s' _ - hstep ⟨hs, rfl⟩
    obtain ⟨hs', b, hb, hshows⟩ := matched_of_step hs hstep
    exact ⟨_, .single trivial hb hshows, hs', rfl⟩

/-- **The UDP events of the Windows build refine endpoints**: in every run, with any calls of the
client, any results of the system and any order of the packets, an operation that was accepted ends
with one call of its callback, with its own buffer, unless the event has been freed before; after an
error no operation is started; an event is released once, when its last operation has ended; and
nothing fails. -/
theorem refines_endpoints :
    Refines step shows anyStep init Endpoints.step Endpoints.shows anyStep Endpoints.init :=
  simulation.refines ⟨init_inv, rfl⟩

end UdpLoop

end Iocp

end Nanoev
