import Nanoev.Threads.Notification

/-!
# The async event on a completion port

On Windows `nanoev_async_send` starts an overlapped read of the pipe and then writes the byte that
completes it. The system puts a packet on the completion port when the read is complete, the loop
fetches the packet, and `__async_proactor_callback` reads and clears `async_sent` under the lock.
When `WriteFile` fails, the read is cancelled: the call fails, but the cancelled read completes too,
and until its packet has been delivered the flag `READING` makes the next calls return
`NANOEV_ERROR_ACCESS_DENIED`.

There is one context for the read. It is on its way from `ReadFile` to the delivery, and `Place`
says where: pending in the pipe, with or without the byte, being cancelled, in a packet on the port,
or in the hands of the loop. Wherever it is, `READING` is set, and it carries a notification exactly
when the byte was written. So the context is never handed to the system twice, the event is not
released while the system or the port still refers to it (`contextSafe_of_asserts`), and the event
implements the same flag as the one with a pipe that is polled (`port_refines_notification`), except
that calls may be refused.
-/

namespace Nanoev

open Transition

namespace Iocp

/-- `WSAEINTR`, which `ntstatus_to_winsock_error` makes of `STATUS_CANCELLED`. -/
def wsaEintr : ℤ := 10004

/-- Where a thread is in `nanoev_async_send`, when it holds the lock. -/
inductive SendPc
  /-- Before the tests of `async_sent` and of the flag `READING`. -/
  | test
  | readFile
  | writeFile
  /-- Before `async_sent = 1`. -/
  | set
  /-- At `my_exit`. -/
  | exit (ret : RetCode)
deriving DecidableEq, Repr

inductive LockHolder
  | sender (thread : ℕ) (pc : SendPc)
  /-- The loop, in `__async_proactor_callback`. -/
  | loop
deriving DecidableEq, Repr

inductive DeliveryPc
  | elsewhere
  /-- The loop has fetched a packet with this status. -/
  | fetched (status : ℤ)
  /-- In `__async_proactor_callback`, before the call of `on_async`. -/
  | calling
  | inCallback
deriving DecidableEq, Repr

/-- The status of the packet that the loop has fetched. -/
def DeliveryPc.status : DeliveryPc → Option ℤ
  | .fetched status => some status
  | _ => none

/-- What the system holds for the event: the pipe, the read of it, and the packets on the port. -/
structure PipePort where
  bytes : ℕ
  readPending : Bool
  /-- `CancelIo` has been called for the pending read. -/
  cancelled : Bool
  port : List ℤ
deriving DecidableEq, Repr

structure AsyncPort where
  asyncSent : Bool
  /-- The flag `READING`. -/
  reading : Bool
  /-- The flag `DELETED`. -/
  deleted : Bool
  /-- `async_free` has released the event. -/
  released : Bool
  kernel : PipePort
  holder : Option LockHolder
  loop : DeliveryPc
deriving DecidableEq, Repr

namespace AsyncPort

/-- An event that `nanoev_async_start` has started. -/
def init : AsyncPort where
  asyncSent := false
  reading := false
  deleted := false
  released := false
  kernel := ⟨0, false, false, []⟩
  holder := none
  loop := .elsewhere

def goes (x : AsyncPort) (thread : ℕ) (pc : SendPc) : AsyncPort :=
  { x with holder := some (.sender thread pc) }

/-- A thread that holds the lock goes on in `nanoev_async_send`; `ok` says whether the system
accepts the read or the byte. -/
def sendStep (x : AsyncPort) (thread : ℕ) (ok : Bool) : SendPc → AsyncPort
  | .test =>
    if x.asyncSent then x.goes thread (.exit .success)
    else if x.reading then x.goes thread (.exit .accessDenied)
    else x.goes thread .readFile
  | .readFile =>
    if ok = false then x.goes thread (.exit .fail)
    else if x.kernel.bytes = 0 then
      -- `ERROR_IO_PENDING`
      { x.goes thread .writeFile with
        reading := true, kernel := { x.kernel with readPending := true } }
    else
      -- `ReadFile` is complete at once, which is a failure here; its packet is queued all the same
      { x.goes thread (.exit .fail) with
        kernel := { x.kernel with bytes := x.kernel.bytes - 1, port := x.kernel.port ++ [0] } }
  | .writeFile =>
    if ok then
      { x.goes thread .set with kernel := { x.kernel with bytes := x.kernel.bytes + 1 } }
    else
      -- `CancelIo`
      { x.goes thread (.exit .fail) with kernel := { x.kernel with cancelled := true } }
  | .set => { x.goes thread (.exit .success) with asyncSent := true }
  | .exit _ => { x with holder := none }

/-- `async_free`. -/
def asyncFree (x : AsyncPort) : AsyncPort :=
  if x.asyncSent || x.reading then { x with deleted := true } else { x with released := true }

inductive Action
  /-- A thread acquires the lock in `nanoev_async_send`. -/
  | lock (thread : ℕ)
  /-- The thread goes on. -/
  | send (thread : ℕ) (ok : Bool)
  /-- The system completes the read with a byte of the pipe. -/
  | complete
  /-- The system completes the read that has been cancelled. -/
  | abort
  /-- The loop fetches a packet. -/
  | fetch
  /-- The loop acquires the lock in `__async_proactor_callback`. -/
  | deliver
  /-- The loop reads and clears `async_sent`, clears `READING` and releases the lock. -/
  | clear
  /-- The loop calls `on_async`. -/
  | call
  /-- `on_async` returns. -/
  | callbackReturn
  /-- `nanoev_event_free`. -/
  | free
  /-- The endgame list is processed. -/
  | endgame
deriving DecidableEq, Repr

def step (x : AsyncPort) : Action → Option AsyncPort
  | .lock k => if x.holder = none then some (x.goes k .test) else none
  | .send k ok =>
    match x.holder with
    | some (.sender thread pc) => if thread = k then some (x.sendStep k ok pc) else none
    | _ => none
  | .complete =>
    if x.kernel.readPending = true ∧ 0 < x.kernel.bytes then
      some { x with kernel :=
        { x.kernel with
          bytes := x.kernel.bytes - 1, readPending := false, port := x.kernel.port ++ [0] } }
    else none
  | .abort =>
    if x.kernel.readPending = true ∧ x.kernel.cancelled = true then
      some { x with kernel :=
        { x.kernel with
          readPending := false, cancelled := false, port := x.kernel.port ++ [wsaEintr] } }
    else none
  | .fetch =>
    match x.kernel.port with
    | [] => none
    | status :: rest =>
      if x.loop = .elsewhere then
        some { x with kernel := { x.kernel with port := rest }, loop := .fetched status }
      else none
  | .deliver =>
    if x.loop.status ≠ none ∧ x.holder = none then some { x with holder := some .loop } else none
  | .clear =>
    if x.holder = some .loop then
      some { x with
        asyncSent := false, reading := false, holder := none
        loop :=
          if x.asyncSent = true ∧ x.loop.status = some 0 ∧ x.deleted = false then .calling
          else .elsewhere }
    else none
  | .call => if x.loop = .calling then some { x with loop := .inCallback } else none
  | .callbackReturn => if x.loop = .inCallback then some { x with loop := .elsewhere } else none
  | .free =>
    if (x.loop = .elsewhere ∨ x.loop = .inCallback) ∧ x.holder = none then some x.asyncFree
    else none
  | .endgame =>
    if x.loop = .elsewhere ∧ x.holder = none ∧ x.deleted = true ∧ x.released = false ∧
      x.reading = false then some x.asyncFree
    else none

/-- The assertions of the functions: an event is not used once it has been freed. -/
def asserts (x : AsyncPort) : Action → Prop
  | .lock _ | .free => x.deleted = false ∧ x.released = false
  | _ => True

instance : ∀ (x : AsyncPort) a, Decidable (x.asserts a)
  | _, .lock _ | _, .free => instDecidableAnd
  | _, .send .. | _, .complete | _, .abort | _, .fetch | _, .deliver | _, .clear | _, .call
  | _, .callbackReturn | _, .endgame => instDecidableTrue

inductive Steps (x : AsyncPort) : Action → AsyncPort → Prop
  | lock {k} (hfree : x.holder = none) : Steps x (.lock k) (x.goes k .test)
  | send {k ok pc} (hheld : x.holder = some (.sender k pc)) :
    Steps x (.send k ok) (x.sendStep k ok pc)
  | complete (hpending : x.kernel.readPending = true) (hbyte : 0 < x.kernel.bytes) :
    Steps x .complete { x with kernel :=
      { x.kernel with
        bytes := x.kernel.bytes - 1, readPending := false, port := x.kernel.port ++ [0] } }
  | abort (hpending : x.kernel.readPending = true) (hcancelled : x.kernel.cancelled = true) :
    Steps x .abort { x with kernel :=
      { x.kernel with
        readPending := false, cancelled := false, port := x.kernel.port ++ [wsaEintr] } }
  | fetch {status rest} (hport : x.kernel.port = status :: rest) (hloop : x.loop = .elsewhere) :
    Steps x .fetch
      { x with kernel := { x.kernel with port := rest }, loop := .fetched status }
  | deliver (hloop : x.loop.status ≠ none) (hfree : x.holder = none) :
    Steps x .deliver { x with holder := some .loop }
  | clear (hheld : x.holder = some .loop) :
    Steps x .clear { x with
      asyncSent := false, reading := false, holder := none
      loop :=
        if x.asyncSent = true ∧ x.loop.status = some 0 ∧ x.deleted = false then .calling
        else .elsewhere }
  | call (hloop : x.loop = .calling) : Steps x .call { x with loop := .inCallback }
  | callbackReturn (hloop : x.loop = .inCallback) :
    Steps x .callbackReturn { x with loop := .elsewhere }
  | free (hloop : x.loop = .elsewhere ∨ x.loop = .inCallback) (hfree : x.holder = none) :
    Steps x .free x.asyncFree
  | endgame (hloop : x.loop = .elsewhere) (hfree : x.holder = none) (hdeleted : x.deleted = true)
      (hreading : x.reading = false) : Steps x .endgame x.asyncFree

variable {x y : AsyncPort} {a : Action} {k : ℕ}

theorem step_eq_some (h : x.step a = some y) : Steps x a y := by
  cases a with
  | lock k =>
    obtain ⟨hfree, rfl⟩ := of_guard h
    exact .lock hfree
  | send k ok =>
    simp only [step] at h
    split at h
    · next thread pc hheld =>
      obtain ⟨rfl, rfl⟩ := of_guard h
      exact .send hheld
    · cases h
  | complete =>
    obtain ⟨⟨hpending, hbyte⟩, rfl⟩ := of_guard h
    exact .complete hpending hbyte
  | abort =>
    obtain ⟨⟨hpending, hcancelled⟩, rfl⟩ := of_guard h
    exact .abort hpending hcancelled
  | fetch =>
    simp only [step] at h
    split at h
    · cases h
    · next status rest hport =>
      obtain ⟨hloop, rfl⟩ := of_guard h
      exact .fetch hport hloop
  | deliver =>
    obtain ⟨⟨hloop, hfree⟩, rfl⟩ := of_guard h
    exact .deliver hloop hfree
  | clear =>
    obtain ⟨hheld, rfl⟩ := of_guard h
    exact .clear hheld
  | call =>
    obtain ⟨hloop, rfl⟩ := of_guard h
    exact .call hloop
  | callbackReturn =>
    obtain ⟨hloop, rfl⟩ := of_guard h
    exact .callbackReturn hloop
  | free =>
    obtain ⟨⟨hloop, hfree⟩, rfl⟩ := of_guard h
    exact .free hloop hfree
  | endgame =>
    obtain ⟨⟨hloop, hfree, hdeleted, -, hreading⟩, rfl⟩ := of_guard h
    exact .endgame hloop hfree hdeleted hreading

end AsyncPort

/-! ## The place of the context -/

inductive Place
  | idle
  /-- The read is pending and the pipe is empty. -/
  | waiting
  /-- The read is pending, and the byte is in the pipe. -/
  | written
  /-- The read is pending and has been cancelled. -/
  | cancelling
  /-- In a packet on the port. -/
  | packet (status : ℤ)
  /-- The loop has fetched the packet. -/
  | fetched (status : ℤ)
deriving DecidableEq, Repr

namespace Place

def kernel : Place → PipePort
  | .idle | .fetched _ => ⟨0, false, false, []⟩
  | .waiting => ⟨0, true, false, []⟩
  | .written => ⟨1, true, false, []⟩
  | .cancelling => ⟨0, true, true, []⟩
  | .packet status => ⟨0, false, false, [status]⟩

/-- What the loop has fetched of a context at this place. -/
def status : Place → Option ℤ
  | .fetched status => some status
  | _ => none

/-- The context carries a notification: the byte has been written. -/
def notifies : Place → Bool
  | .written => true
  | .packet status | .fetched status => decide (status = 0)
  | _ => false

end Place

def SendPc.moves (ok : Bool) : SendPc → Place → Place
  | .readFile, p => if ok then .waiting else p
  | .writeFile, _ => if ok then .written else .cancelling
  | _, p => p

namespace AsyncPort

/-- Where the holder of the lock is, the place of the context and `async_sent` agree. -/
def Locked (sent : Bool) (p : Place) : Option LockHolder → Prop
  | some (.sender _ .readFile) => p = .idle ∧ sent = false
  | some (.sender _ .writeFile) => p = .waiting ∧ sent = false
  | some (.sender _ .set) => p.notifies = true ∧ sent = false
  | some (.sender _ (.exit ret)) =>
    p ≠ .waiting ∧ sent = p.notifies ∧ (ret = .success ↔ p.notifies = true)
  | _ => p ≠ .waiting ∧ sent = p.notifies

variable {x y : AsyncPort} {a : Action} {k : ℕ} {p q : Place}

/-- The context moves on, and takes the notification with it if it carries one. -/
theorem Locked.move {sent : Bool} {holder : Option LockHolder} (h : Locked sent p holder)
    (hidle : p ≠ .idle) (hp : p ≠ .waiting) (hq : q ≠ .waiting) (hsame : q.notifies = p.notifies) :
    Locked sent q holder := by
  unfold Locked at h ⊢
  split at h
  · exact absurd h.1 hidle
  · exact absurd h.1 hp
  · rwa [hsame]
  · exact ⟨hq, hsame ▸ h.2⟩
  · exact ⟨hq, hsame ▸ h.2⟩

/-- The invariant, for a context at place `p`. -/
structure Inv (x : AsyncPort) (p : Place) : Prop where
  kernel : x.kernel = p.kernel
  fetched : x.loop.status = p.status
  reading : x.reading = decide (p ≠ .idle)
  locked : Locked x.asyncSent p x.holder
  delivering : x.holder = some .loop → p.status ≠ none
  freed : x.deleted = true ∨ x.released = true → ∀ k pc, x.holder ≠ some (.sender k pc)
  released : x.released = true → p = .idle ∧ x.holder = none

theorem init_inv : init.Inv .idle where
  kernel := rfl
  fetched := rfl
  reading := rfl
  locked := ⟨by decide, rfl⟩
  delivering := by simp [init]
  freed := by simp [init]
  released := by simp [init]

namespace Inv

theorem of_free (h : x.Inv p) (hfree : x.holder = none) :
    p ≠ .waiting ∧ x.asyncSent = p.notifies := by
  have hlocked := h.locked
  rwa [hfree] at hlocked

/-- A thread holds the lock, so the event has not been freed. -/
theorem of_held {pc : SendPc} (h : x.Inv p) (hheld : x.holder = some (.sender k pc)) :
    x.deleted = false ∧ x.released = false := by
  refine ⟨Bool.eq_false_iff.mpr fun hd ↦ ?_, Bool.eq_false_iff.mpr fun hr ↦ ?_⟩
  · exact h.freed (.inl hd) k pc hheld
  · exact h.freed (.inr hr) k pc hheld

theorem idle_of_reading (h : x.Inv p) (hreading : x.reading = false) : p = .idle := by
  by_contra hp
  rw [h.reading, decide_eq_true hp] at hreading
  exact Bool.noConfusion hreading

theorem goes {pc pc' : SendPc} {sent reading : Bool} {kernel : PipePort} (h : x.Inv p)
    (hheld : x.holder = some (.sender k pc)) (hkernel : kernel = q.kernel)
    (hfetched : q.status = p.status) (hreading : reading = decide (q ≠ .idle))
    (hlocked : Locked sent q (some (.sender k pc'))) :
    Inv { x.goes k pc' with asyncSent := sent, reading := reading, kernel := kernel } q where
  kernel := hkernel
  fetched := h.fetched.trans hfetched.symm
  reading := hreading
  locked := hlocked
  delivering := by simp [AsyncPort.goes]
  freed := by simp [(h.of_held hheld).1, (h.of_held hheld).2, AsyncPort.goes]
  released := by simp [(h.of_held hheld).2, AsyncPort.goes]

theorem goes_same {pc pc' : SendPc} (h : x.Inv p) (hheld : x.holder = some (.sender k pc))
    (hlocked : Locked x.asyncSent p (some (.sender k pc'))) : (x.goes k pc').Inv p :=
  h.goes hheld h.kernel rfl h.reading hlocked

theorem sendStep {pc : SendPc} {ok : Bool} (h : x.Inv p) (hheld : x.holder = some (.sender k pc)) :
    (x.sendStep k ok pc).Inv (pc.moves ok p) := by
  have hlocked := h.locked
  rw [hheld] at hlocked
  cases pc with
  | test =>
    obtain ⟨hp, hsent⟩ := hlocked
    rw [AsyncPort.sendStep]
    split_ifs with hset hreading
    · refine h.goes_same hheld ?_
      exact ⟨hp, hsent, fun _ ↦ hsent ▸ hset, fun _ ↦ rfl⟩
    · refine h.goes_same hheld ?_
      exact ⟨hp, hsent, by simp, fun hn ↦ absurd (hsent.trans hn) hset⟩
    · refine h.goes_same hheld ?_
      exact ⟨h.idle_of_reading (Bool.eq_false_iff.mpr hreading), Bool.eq_false_iff.mpr hset⟩
  | readFile =>
    obtain ⟨rfl, hsent⟩ := hlocked
    have hempty : x.kernel.bytes = 0 := by rw [h.kernel]; rfl
    rw [AsyncPort.sendStep]
    cases ok with
    | false =>
      refine h.goes_same hheld ?_
      exact ⟨by decide, hsent, by decide⟩
    | true =>
      rw [if_neg (by decide), if_pos hempty, h.kernel]
      exact h.goes hheld rfl rfl rfl ⟨rfl, hsent⟩
  | writeFile =>
    obtain ⟨rfl, hsent⟩ := hlocked
    rw [AsyncPort.sendStep, h.kernel]
    cases ok with
    | false => exact h.goes hheld rfl rfl h.reading ⟨by decide, hsent, by decide⟩
    | true => exact h.goes hheld rfl rfl h.reading ⟨rfl, hsent⟩
  | set =>
    obtain ⟨hnotifies, -⟩ := hlocked
    refine h.goes hheld h.kernel rfl h.reading ⟨?_, hnotifies.symm, fun _ ↦ hnotifies, fun _ ↦ rfl⟩
    rintro rfl
    exact Bool.noConfusion hnotifies
  | exit ret =>
    exact
      { kernel := h.kernel
        fetched := h.fetched
        reading := h.reading
        locked := ⟨hlocked.1, hlocked.2.1⟩
        delivering := by simp [AsyncPort.sendStep]
        freed := by simp [AsyncPort.sendStep]
        released := by simp [AsyncPort.sendStep, (h.of_held hheld).2] }

theorem lock (h : x.Inv p) (hfree : x.holder = none) (hdeleted : x.deleted = false)
    (hreleased : x.released = false) : (x.goes k .test).Inv p where
  kernel := h.kernel
  fetched := h.fetched
  reading := h.reading
  locked := h.of_free hfree
  delivering := by simp [AsyncPort.goes]
  freed := by simp [AsyncPort.goes, hdeleted, hreleased]
  released := by simp [AsyncPort.goes, hreleased]

theorem deliver (h : x.Inv p) (hloop : x.loop.status ≠ none) (hfree : x.holder = none) :
    Inv { x with holder := some .loop } p where
  kernel := h.kernel
  fetched := h.fetched
  reading := h.reading
  locked := h.of_free hfree
  delivering := fun _ ↦ h.fetched ▸ hloop
  freed := by simp
  released := fun hr ↦ by
    obtain ⟨rfl, -⟩ := h.released hr
    exact absurd h.fetched hloop

theorem loopStep {loop : DeliveryPc} (h : x.Inv p) (hloop : loop.status = x.loop.status) :
    Inv { x with loop := loop } p :=
  ⟨h.kernel, hloop.trans h.fetched, h.reading, h.locked, h.delivering, h.freed, h.released⟩

/-- The system or the loop moves the context to `q`, and a notification goes with it. -/
theorem move {kernel : PipePort} {loop : DeliveryPc} (h : x.Inv p) (hidle : p ≠ .idle)
    (hp : p ≠ .waiting) (hq : q ≠ .waiting) (hqidle : q ≠ .idle) (hnone : p.status = none)
    (hsame : q.notifies = p.notifies) (hkernel : kernel = q.kernel)
    (hloop : loop.status = q.status) :
    Inv { x with kernel := kernel, loop := loop } q where
  kernel := hkernel
  fetched := hloop
  reading := by rw [h.reading, decide_eq_true hidle, decide_eq_true hqidle]
  locked := h.locked.move hidle hp hq hsame
  delivering := fun hheld ↦ absurd hnone (h.delivering hheld)
  freed := h.freed
  released := fun hr ↦ absurd (h.released hr).1 hidle

theorem complete (h : x.Inv p) (hpending : x.kernel.readPending = true)
    (hbyte : 0 < x.kernel.bytes) :
    p = .written ∧ Inv { x with kernel :=
      { x.kernel with
        bytes := x.kernel.bytes - 1, readPending := false, port := x.kernel.port ++ [0] } }
      (.packet 0) := by
  have hk := h.kernel
  rw [hk] at hpending hbyte
  cases p with
  | written =>
    rw [hk]
    exact ⟨rfl, h.move (by decide) (by decide) (by decide) (by decide) rfl rfl rfl h.fetched⟩
  | idle | waiting | cancelling | packet st | fetched st => exact absurd hbyte (Nat.lt_irrefl 0)

theorem abort (h : x.Inv p) (hpending : x.kernel.readPending = true)
    (hcancelled : x.kernel.cancelled = true) :
    p = .cancelling ∧ Inv { x with kernel :=
      { x.kernel with
        readPending := false, cancelled := false, port := x.kernel.port ++ [wsaEintr] } }
      (.packet wsaEintr) := by
  have hk := h.kernel
  rw [hk] at hpending hcancelled
  cases p with
  | cancelling =>
    rw [hk]
    exact ⟨rfl, h.move (by decide) (by decide) (by decide) (by decide) rfl rfl rfl h.fetched⟩
  | idle | waiting | written | packet st | fetched st => exact Bool.noConfusion hcancelled

theorem fetch {status : ℤ} {rest : List ℤ} (h : x.Inv p) (hport : x.kernel.port = status :: rest) :
    p = .packet status ∧
      Inv { x with kernel := { x.kernel with port := rest }, loop := .fetched status }
        (.fetched status) := by
  have hk := h.kernel
  rw [hk] at hport
  cases p with
  | packet st =>
    obtain ⟨rfl, rfl⟩ := List.cons.inj hport
    rw [hk]
    exact ⟨rfl, h.move (by simp) (by simp) (by simp) (by simp) rfl rfl rfl rfl⟩
  | idle | waiting | written | cancelling | fetched st => cases hport

/-- The loop holds the lock because it delivers the packet that it has fetched. -/
theorem of_loop (h : x.Inv p) (hheld : x.holder = some .loop) :
    ∃ status, p = .fetched status ∧ x.loop = .fetched status ∧
      x.asyncSent = decide (status = 0) := by
  have hstatus := h.delivering hheld
  have hfetched := h.fetched
  have hlocked := h.locked
  rw [hheld] at hlocked
  cases p with
  | fetched st =>
    refine ⟨st, rfl, ?_, hlocked.2⟩
    cases hloop : x.loop with
    | fetched st' =>
      rw [hloop] at hfetched
      rw [Option.some.inj hfetched]
    | elsewhere | calling | inCallback =>
      rw [hloop] at hfetched
      cases hfetched
  | idle | waiting | written | cancelling | packet st => exact absurd rfl hstatus

theorem clear {loop : DeliveryPc} (h : x.Inv p) (hheld : x.holder = some .loop)
    (hloop : loop.status = none) :
    Inv { x with asyncSent := false, reading := false, holder := none, loop := loop } .idle := by
  obtain ⟨status, rfl, -, -⟩ := h.of_loop hheld
  exact
    { kernel := h.kernel
      fetched := hloop
      reading := rfl
      locked := ⟨by decide, rfl⟩
      delivering := by simp
      freed := by simp
      released := fun _ ↦ ⟨rfl, rfl⟩ }

theorem asyncFree (h : x.Inv p) (hfree : x.holder = none) : x.asyncFree.Inv p := by
  unfold AsyncPort.asyncFree
  split_ifs with hbusy
  · exact ⟨h.kernel, h.fetched, h.reading, h.locked, h.delivering, by simp [hfree], h.released⟩
  · rw [Bool.or_eq_true, not_or] at hbusy
    have hidle := h.idle_of_reading (Bool.eq_false_iff.mpr hbusy.2)
    exact ⟨h.kernel, h.fetched, h.reading, h.locked, h.delivering, by simp [hfree],
      fun _ ↦ ⟨hidle, hfree⟩⟩

end Inv

theorem Steps.inv (hstep : Steps x a y) (hok : x.asserts a) (h : x.Inv p) : ∃ q, y.Inv q := by
  cases hstep with
  | lock hfree => exact ⟨_, h.lock hfree hok.1 hok.2⟩
  | send hheld => exact ⟨_, h.sendStep hheld⟩
  | complete hpending hbyte => exact ⟨_, (h.complete hpending hbyte).2⟩
  | abort hpending hcancelled => exact ⟨_, (h.abort hpending hcancelled).2⟩
  | fetch hport => exact ⟨_, (h.fetch hport).2⟩
  | deliver hloop hfree => exact ⟨_, h.deliver hloop hfree⟩
  | clear hheld => exact ⟨_, h.clear hheld (by split <;> rfl)⟩
  | call hloop | callbackReturn hloop => exact ⟨_, h.loopStep (by rw [hloop]; rfl)⟩
  | free _ hfree | endgame _ hfree => exact ⟨p, h.asyncFree hfree⟩

theorem inv_of_reachable (h : Reachable step asserts init x) : ∃ p, x.Inv p := by
  refine h.invariant (I := fun x ↦ ∃ p, x.Inv p) ⟨_, init_inv⟩ ?_
  rintro y a z ⟨p, hp⟩ hok hstep
  exact (step_eq_some hstep).inv hok hp

/-! ## The context belongs to one side at a time -/

/-- How often the context is in the hands of the system, on the port, or of the loop. -/
def outstanding (x : AsyncPort) : ℕ :=
  (if x.kernel.readPending then 1 else 0) + x.kernel.port.length +
    if x.loop.status = none then 0 else 1

structure ContextSafe (x : AsyncPort) : Prop where
  reading : x.outstanding = if x.reading then 1 else 0
  /-- `memset` and `ReadFile` find the context free. -/
  fresh : ∀ k, x.holder = some (.sender k .readFile) → x.outstanding = 0
  /-- Nothing refers to an event that has been released. -/
  released : x.released = true → x.outstanding = 0 ∧ x.holder = none

theorem Inv.outstanding_eq (h : x.Inv p) : x.outstanding = if p = .idle then 0 else 1 := by
  unfold outstanding
  rw [h.kernel, h.fetched]
  cases p <;> rfl

theorem Inv.contextSafe (h : x.Inv p) : x.ContextSafe where
  reading := by
    rw [h.outstanding_eq, h.reading]
    by_cases hp : p = .idle <;> simp [hp]
  fresh := fun k hheld ↦ by
    have hlocked := h.locked
    rw [hheld] at hlocked
    rw [h.outstanding_eq, if_pos hlocked.1]
  released := fun hr ↦ by
    rw [h.outstanding_eq, if_pos (h.released hr).1]
    exact ⟨rfl, (h.released hr).2⟩

/-- **The context of the read is used once at a time**, whatever the threads, the system and the
loop do, even when writes fail and the event is freed while a read is outstanding. -/
theorem contextSafe_of_asserts (h : Reachable step asserts init x) : x.ContextSafe := by
  obtain ⟨p, hp⟩ := inv_of_reachable h
  exact hp.contextSafe

/-- A write fails, so the next call is refused until the cancelled read has been delivered; then the
event is freed while the read of the third call is outstanding. -/
def cancelled : List Action :=
  [.lock 0, .send 0 true, .send 0 true, .send 0 false, .send 0 true, .lock 1, .send 1 true,
    .send 1 true, .abort, .fetch, .deliver, .clear, .lock 2, .send 2 true, .send 2 true,
    .send 2 true, .complete, .send 2 true, .send 2 true, .fetch, .deliver, .clear, .call, .lock 0,
    .send 0 true, .send 0 true, .send 0 true, .send 0 true, .send 0 true, .free, .callbackReturn,
    .complete, .fetch, .deliver, .clear, .endgame]

theorem contextSafe_of_asserts_cancelled :
    ∃ x, exec step asserts init cancelled = some x ∧ x.released = true ∧ x.ContextSafe := by
  have hrun : (exec step asserts init cancelled).map (·.released) = some true := by decide +kernel
  obtain ⟨x, hx, hreleased⟩ := Option.map_eq_some_iff.mp hrun
  exact ⟨x, hx, hreleased, contextSafe_of_asserts (Reachable.of_exec hx)⟩

/-! ## The event implements the flag -/

def shown (k : ℕ) : SendPc → List AsyncEvent
  | .exit ret => [.returned k ret]
  | _ => []

/-- What an action shows. The entry of a call is shown when it has the lock, so the calls in a
history do not overlap. -/
def observe (x : AsyncPort) : Action → List AsyncEvent
  | .lock k => [.entered k]
  | .send k _ =>
    match x.holder with
    | some (.sender _ pc) => shown k pc
    | _ => []
  | .call => [.called]
  | _ => []

/-- The call of a thread has its effect when the byte is written, or when `async_sent` was found
set. -/
def effectPc : SendPc → CallerPc
  | .test | .readFile | .writeFile => .entered
  | .set => .leaving .success
  | .exit ret => .leaving ret

def inside : Option LockHolder → Option (ℕ × CallerPc)
  | some (.sender thread pc) => some (thread, effectPc pc)
  | _ => none

open Notification (serial emits_enter emits_raise emits_refuse emits_leave emits_take emits_call)

/-- The flag of an event: it is up when the context carries a notification. Once the event has been
freed, a notification that is still on its way is dropped. -/
structure Flags (x : AsyncPort) (p : Place) (n : Notification) (due : Bool) : Prop where
  inv : x.Inv p
  eq : n = serial due (decide (x.loop = .calling)) (inside x.holder)
  due : x.deleted = false → x.released = false → due = p.notifies

def Flagged (x : AsyncPort) (n : Notification) : Prop := ∃ p due, x.Flags p n due

/-- The flag goes from one state to one that belongs to `y`, and shows `l`. -/
def Shows (n : Notification) (l : List AsyncEvent) (y : AsyncPort) : Prop :=
  ∃ m, Emits Notification.step Notification.observe anyStep n l m ∧ y.Flagged m

variable {n : Notification} {due : Bool}

namespace Flags

/-- Steps that cannot be observed, and after which the context carries what it carried before. -/
theorem shows_nil (h : x.Flags p n due) (hinv : y.Inv q)
    (hcalling : y.loop = .calling ↔ x.loop = .calling)
    (hinside : inside y.holder = inside x.holder)
    (hdue : y.deleted = false → y.released = false →
      x.deleted = false ∧ x.released = false ∧ q.notifies = p.notifies) : Shows n [] y := by
  refine ⟨n, .nil n, q, due, hinv, ?_, fun hd hr ↦ ?_⟩
  · rw [h.eq, hinside, decide_eq_decide.mpr hcalling]
  · obtain ⟨hd, hr, hq⟩ := hdue hd hr
    rw [hq, h.due hd hr]

theorem shows_raise {pc pc' : SendPc} (h : x.Flags p n due) (hinv : y.Inv q)
    (hx : x.holder = some (.sender k pc)) (hy : y.holder = some (.sender k pc'))
    (hpc : effectPc pc = .entered) (hpc' : effectPc pc' = .leaving .success)
    (hloop : y.loop = x.loop) (hq : q.notifies = true) : Shows n [] y := by
  refine ⟨_, ?_, q, true, hinv, rfl, fun _ _ ↦ hq.symm⟩
  rw [h.eq, hx, hy, hloop, inside, inside, hpc, hpc']
  exact emits_raise trivial

theorem shows_refuse {pc : SendPc} {ret : RetCode} (h : x.Flags p n due) (hinv : y.Inv q)
    (hx : x.holder = some (.sender k pc)) (hy : y.holder = some (.sender k (.exit ret)))
    (hpc : effectPc pc = .entered) (hret : ret ≠ .success) (hloop : y.loop = x.loop)
    (hq : q.notifies = p.notifies) : Shows n [] y := by
  obtain ⟨hd, hr⟩ := h.inv.of_held hx
  refine ⟨_, ?_, q, due, hinv, rfl, fun _ _ ↦ hq ▸ h.due hd hr⟩
  rw [h.eq, hx, hy, hloop, inside, inside, hpc]
  exact emits_refuse trivial hret

theorem shows_sendStep {pc : SendPc} {ok : Bool} (h : x.Flags p n due)
    (hheld : x.holder = some (.sender k pc)) :
    Shows n (x.observe (.send k ok)) (x.sendStep k ok pc) := by
  have hobserve : x.observe (.send k ok) = shown k pc := by simp only [observe, hheld]
  have hinv : (x.sendStep k ok pc).Inv (pc.moves ok p) := h.inv.sendStep hheld
  have hlocked := h.inv.locked
  obtain ⟨hd, hr⟩ := h.inv.of_held hheld
  rw [hheld] at hlocked
  rw [hobserve]
  cases pc with
  | test =>
    rw [sendStep] at hinv ⊢
    split_ifs at hinv ⊢ with hset hreading
    · exact h.shows_raise hinv hheld rfl rfl rfl rfl (hlocked.2 ▸ hset)
    · exact h.shows_refuse hinv hheld rfl rfl (by decide) rfl rfl
    · exact h.shows_nil hinv Iff.rfl (by rw [hheld]; rfl) fun _ _ ↦ ⟨hd, hr, rfl⟩
  | readFile =>
    obtain ⟨rfl, -⟩ := hlocked
    have hempty : x.kernel.bytes = 0 := by rw [h.inv.kernel]; rfl
    cases ok with
    | false => exact h.shows_refuse hinv hheld rfl rfl (by decide) rfl rfl
    | true =>
      rw [sendStep, if_neg (by decide), if_pos hempty] at hinv ⊢
      exact h.shows_nil hinv Iff.rfl (by rw [hheld]; rfl) fun _ _ ↦ ⟨hd, hr, rfl⟩
  | writeFile =>
    obtain ⟨rfl, -⟩ := hlocked
    cases ok with
    | false => exact h.shows_refuse hinv hheld rfl rfl (by decide) rfl rfl
    | true => exact h.shows_raise hinv hheld rfl rfl rfl rfl rfl
  | set => exact h.shows_nil hinv Iff.rfl (by rw [hheld]; rfl) fun _ _ ↦ ⟨hd, hr, rfl⟩
  | exit ret =>
    refine ⟨_, ?_, p, due, hinv, rfl, h.due⟩
    rw [h.eq, hheld]
    exact emits_leave trivial

/-- The loop takes the flag down when it reads and clears `async_sent`, unless the packet is that of
a cancelled read, or the event has been freed. -/
theorem shows_clear (h : x.Flags p n due) (hheld : x.holder = some .loop) :
    Shows n [] { x with
      asyncSent := false, reading := false, holder := none
      loop :=
        if x.asyncSent = true ∧ x.loop.status = some 0 ∧ x.deleted = false then .calling
        else .elsewhere } := by
  obtain ⟨status, rfl, hloop, hsent⟩ := h.inv.of_loop hheld
  have hreleased : x.released = false := by
    by_contra hr
    rw [(h.inv.released (Bool.eq_true_of_not_eq_false hr)).2] at hheld
    cases hheld
  split_ifs with hcall
  · obtain ⟨-, hstatus, hdeleted⟩ := hcall
    rw [hloop] at hstatus
    obtain rfl : status = 0 := Option.some.inj hstatus
    refine ⟨serial false true none, ?_, .idle, false, h.inv.clear hheld rfl, rfl, fun _ _ ↦ rfl⟩
    rw [h.eq, h.due hdeleted hreleased, hheld, decide_eq_false (by rw [hloop]; simp)]
    exact emits_take trivial
  · refine h.shows_nil (h.inv.clear hheld rfl) (by simp [hloop]) (by rw [hheld]; rfl)
      fun hdeleted _ ↦ ⟨hdeleted, hreleased, ?_⟩
    -- the packet is that of a cancelled read
    refine (decide_eq_false fun hzero ↦ hcall ⟨?_, ?_, hdeleted⟩).symm
    · rw [hsent, decide_eq_true hzero]
    · rw [hloop, hzero]
      rfl

theorem shows_asyncFree (h : x.Flags p n due) (hfree : x.holder = none) :
    Shows n [] x.asyncFree := by
  have hinv := h.inv.asyncFree hfree
  unfold asyncFree at hinv ⊢
  split_ifs at hinv ⊢
  · exact h.shows_nil hinv Iff.rfl rfl fun hd _ ↦ Bool.noConfusion hd
  · exact h.shows_nil hinv Iff.rfl rfl fun _ hr ↦ Bool.noConfusion hr

end Flags

/-- **The async event on a completion port implements a flag.** -/
theorem simulation : Simulation step observe asserts Notification.step Notification.observe anyStep
    Flagged where
  step := by
    rintro x a y n hok hstep ⟨p, due, h⟩
    cases step_eq_some hstep with
    | lock hfree =>
      refine ⟨_, ?_, p, due, h.inv.lock hfree hok.1 hok.2, rfl, h.due⟩
      rw [h.eq, hfree]
      exact emits_enter trivial
    | send hheld => exact h.shows_sendStep hheld
    | complete hpending hbyte =>
      obtain ⟨rfl, hinv⟩ := h.inv.complete hpending hbyte
      exact h.shows_nil hinv Iff.rfl rfl fun hd hr ↦ ⟨hd, hr, rfl⟩
    | abort hpending hcancelled =>
      obtain ⟨rfl, hinv⟩ := h.inv.abort hpending hcancelled
      exact h.shows_nil hinv Iff.rfl rfl fun hd hr ↦ ⟨hd, hr, rfl⟩
    | fetch hport hloop =>
      obtain ⟨rfl, hinv⟩ := h.inv.fetch hport
      exact h.shows_nil hinv (by simp [hloop]) rfl fun hd hr ↦ ⟨hd, hr, rfl⟩
    | deliver hloop hfree =>
      exact h.shows_nil (h.inv.deliver hloop hfree) Iff.rfl (by rw [hfree]; rfl)
        fun hd hr ↦ ⟨hd, hr, rfl⟩
    | clear hheld => exact h.shows_clear hheld
    | call hloop =>
      refine ⟨_, ?_, p, due, h.inv.loopStep (by rw [hloop]; rfl), rfl, h.due⟩
      rw [h.eq, decide_eq_true hloop]
      exact emits_call trivial
    | callbackReturn hloop =>
      exact h.shows_nil (h.inv.loopStep (by rw [hloop]; rfl)) (by simp [hloop]) rfl
        fun hd hr ↦ ⟨hd, hr, rfl⟩
    | free _ hfree | endgame _ hfree => exact h.shows_asyncFree hfree

/-- **`nanoev_async_send` is atomic on a completion port too**: whatever the threads, the system and
the loop do with an event, the history of calls, returns and callbacks is one of the flag. A call
that returns an error has no effect. -/
theorem port_refines_notification : Refines step observe asserts init Notification.step
    Notification.observe anyStep .init := by
  refine simulation.refines ⟨.idle, false, init_inv, rfl, fun _ _ ↦ rfl⟩

end AsyncPort

end Iocp

end Nanoev
