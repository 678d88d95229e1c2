import Nanoev.Timer.HeapInvariant
import Nanoev.Transition.Run

/-!
# Timer events and the timer part of the loop

The timer events of `nanoev_timer.c`, the timeouts that TCP events keep in the same heap, and the
part of `nanoev_loop_run` that reads the clock and processes timers, as one transition system.

A user callback may call into the library any number of times before it returns, so the loop thread
has an explicit control state: `processing` is the head of the `while` loop of `timers_process`,
and `timerCallback t` is inside the callback of timer `t`, after which the rest of
`timer_event_node_callback` is still due. Calls are possible wherever user code runs. The I/O part
of a loop iteration, whose callbacks may also call anything, is the single control state `polling`.

The addition that computes an expiry is a parameter of the functions that use it (`nodeAddBy`,
`timerAddBy`, `timerReturnBy`, `stepBy`). `step` is the loop with the addition of integers and
`step64` the one with seconds of 64 bits.

An action carries what the call gets from outside: the reading of the system clock and whether
`mem_realloc` succeeds. The client is assumed not to use an event after freeing it, and the system
clock to return normalized times.

Three fields are there for the specification only and no function reads them: `log` is the record of
the successful calls and of the callbacks, newest first; `elapsed` is the forward movement of the
cached clock in the current run; `arming` remembers with which delay, and at which value of
`elapsed`, a node was armed during the current run.
-/

namespace Nanoev

/-- The timer nodes: the one of a timer event, and the read and the write timeout of a TCP event. -/
inductive NodeRef
  | timer (t : ℕ)
  | tcp (e : ℕ) (write : Bool)
deriving DecidableEq, Repr, Inhabited

/-- `struct nanoev_timer`, less its node. -/
structure Timer where
  invokingCallback : Bool
  deleted : Bool
  after : Timeval
  repeats : Bool
  callback : ℕ
deriving DecidableEq, Repr

inductive Control
  /-- Outside `nanoev_loop_run`. -/
  | idle
  /-- At the head of an iteration, before `__update_time`. -/
  | updating
  /-- At the head of the loop of `timers_process`. -/
  | processing
  /-- Inside the callback of a timer event. -/
  | timerCallback (t : ℕ)
  /-- Inside the callback of a TCP timeout. -/
  | tcpCallback
  /-- After `timers_process`, before the poller is asked for events. -/
  | waiting
  /-- In the I/O part of an iteration. -/
  | polling
deriving DecidableEq, Repr

inductive TimerObs
  | added (t : ℕ)
  | deleted (t : ℕ)
  | fired (n : NodeRef)
deriving DecidableEq, Repr

/-- The delay a node was armed with, and the forward clock movement of the run at that moment. -/
structure Arming where
  delay : ℤ
  since : ℤ
deriving DecidableEq, Repr

/-- The timer part of `struct nanoev_loop`, with the timer events of the loop. -/
structure TimerLoop where
  now : Timeval
  timers : TimerMinHeap NodeRef
  timer : ℕ → Option Timer
  /-- The local variable `timeout` of `nanoev_loop_run`. -/
  timeout : Timeval
  control : Control
  /-- The number of assertions in `time_add` and `time_sub` that have failed. -/
  assertFailures : ℕ
  log : List TimerObs
  elapsed : ℤ
  arming : NodeRef → Option Arming

namespace TimerLoop

/-- `nanoev_loop_new`. -/
def init : TimerLoop where
  now := ⟨0, 0⟩
  timers := TimerMinHeap.timersInit
  timer _ := none
  timeout := ⟨0, 0⟩
  control := .idle
  assertFailures := 0
  log := []
  elapsed := 0
  arming _ := none

/-- One more failed assertion, unless `holds`. -/
def assert (s : TimerLoop) (holds : Bool) : TimerLoop :=
  { s with assertFailures := s.assertFailures + if holds then 0 else 1 }

/-- `nanoev_loop_now`; `clock` is what `nanoev_now` would read. -/
def loopNow (s : TimerLoop) (clock : Timeval.Reading) : Timeval :=
  if s.now.sec ≠ 0 ∨ s.now.usec ≠ 0 then s.now else clock.1

/-- `node` was put into the heap with the delay `after`. -/
def recordArming (s : TimerLoop) (n : NodeRef) (after : Timeval) : TimerLoop :=
  { s with
    arming := Function.update s.arming n
      (if s.control = .idle then none else some ⟨after.micros, s.elapsed⟩) }

/-- `min_heap_erase` on the heap of the loop. -/
def erase (s : TimerLoop) (n : NodeRef) : TimerLoop :=
  { s with
    timers := s.timers.minHeapErase n
    arming := Function.update s.arming n none }

def record (s : TimerLoop) (o : TimerObs) : TimerLoop := { s with log := o :: s.log }

def setTimer (s : TimerLoop) (t : ℕ) (τ : Option Timer) : TimerLoop :=
  { s with timer := Function.update s.timer t τ }

/-- `timer_node_add` with the expiry `nanoev_loop_now + after`, as in `nanoev_timer_add` and
`tcp_timeout_add`. -/
def nodeAddBy (add : Timeval → Timeval → Timeval) (s : TimerLoop) (n : NodeRef) (after : Timeval)
    (clock : Timeval.Reading) (alloc : Bool) : TimerLoop × RetCode :=
  let expires := add (s.loopNow clock) after
  let s₁ := s.assert (timeAddAsserts (s.loopNow clock) after)
  match s₁.timers.timerNodeAdd n expires alloc with
  | (timers, .success) => ({ s₁ with timers := timers }.recordArming n after, .success)
  | (timers, code) => ({ s₁ with timers := timers }, code)

def nodeAdd (s : TimerLoop) (n : NodeRef) (after : Timeval) (clock : Timeval.Reading)
    (alloc : Bool) : TimerLoop × RetCode := s.nodeAddBy timeAdd n after clock alloc

/-- `timer_new`. -/
def timerNew (s : TimerLoop) (t : ℕ) : TimerLoop :=
  { s with
    timers := s.timers.timerNodeInit (.timer t)
    timer := Function.update s.timer t (some ⟨false, false, ⟨0, 0⟩, false, 0⟩) }

/-- `nanoev_timer_add` on the timer `t`, whose fields are `τ`. -/
def timerAddBy (add : Timeval → Timeval → Timeval) (s : TimerLoop) (t : ℕ) (τ : Timer)
    (after : Timeval) (repeats : Bool) (callback : ℕ) (clock : Timeval.Reading) (alloc : Bool) :
    TimerLoop × RetCode :=
  if s.timers.timerNodeActive (.timer t) then (s, .fail)
  else if invalidDelay after then (s, .invalidArg)
  else
    let s₁ := s.setTimer t
      (some { τ with after := after, repeats := repeats, callback := callback })
    match s₁.nodeAddBy add (.timer t) after clock alloc with
    | (s₂, .success) => (s₂.record (.added t), .success)
    | (s₂, code) => (s₂, code)

def timerAdd (s : TimerLoop) (t : ℕ) (τ : Timer) (after : Timeval) (repeats : Bool)
    (callback : ℕ) (clock : Timeval.Reading) (alloc : Bool) : TimerLoop × RetCode :=
  s.timerAddBy timeAdd t τ after repeats callback clock alloc

/-- `nanoev_timer_del`. -/
def timerDel (s : TimerLoop) (t : ℕ) (τ : Timer) : TimerLoop × RetCode :=
  if τ.invokingCallback then
    ((s.setTimer t (some { τ with repeats := false })).record (.deleted t), .success)
  else if s.timers.timerNodeActive (.timer t) then
    ((s.erase (.timer t)).record (.deleted t), .success)
  else (s, .fail)

/-- `timer_free`. -/
def timerFree (s : TimerLoop) (t : ℕ) (τ : Timer) : TimerLoop :=
  if τ.invokingCallback then
    (s.erase (.timer t)).setTimer t (some { τ with repeats := false, deleted := true })
  else (s.erase (.timer t)).setTimer t none

/-! ## Processing -/

/-- `timers_adjust_backward` on the heap of the loop. -/
def adjustBackward (s : TimerLoop) (off : Timeval) : TimerLoop :=
  let r := s.timers.timersAdjustBackward off
  { s with timers := r.1, assertFailures := s.assertFailures + r.2 }

/-- `__update_time`; `tv` is the reading of the clock. -/
def updateTime (s : TimerLoop) (tv : Timeval.Reading) : TimerLoop :=
  let s₁ :=
    if timeCmp tv.1 s.now < 0 then
      (s.assert (timeSubAsserts s.now tv.1)).adjustBackward (timeSub s.now tv.1)
    else s
  { s₁ with now := tv.1, elapsed := s.elapsed + max 0 (tv.1.micros - s.now.micros) }

/-- The root is erased, and its callback is about to be called. -/
def fire (s : TimerLoop) (n : NodeRef) : TimerLoop := (s.erase n).record (.fired n)

/-- The first half of `timer_event_node_callback`, up to the call of the user's callback. -/
def invokeTimer (s : TimerLoop) (t : ℕ) : TimerLoop :=
  match s.timer t with
  | some τ =>
    { s.setTimer t (some { τ with invokingCallback := true }) with control := .timerCallback t }
  | none => { s with control := .timerCallback t }

/-- One turn of the loop of `timers_process`, up to the call of the node's callback. -/
def processTurn (s : TimerLoop) : TimerLoop :=
  if s.timers.size = 0 then { s with control := .waiting }
  else
    let top := s.timers.events 0
    if timeCmp (s.timers.node top).timeout s.now > 0 then { s with control := .waiting }
    else
      match top with
      | .timer t => (s.fire top).invokeTimer t
      | .tcp _ _ => { s.fire top with control := .tcpCallback }

/-- Whether the second half of `timer_event_node_callback` puts the timer back into the heap. -/
def reinserts (s : TimerLoop) (t : ℕ) (τ : Timer) : Bool :=
  !τ.deleted && τ.repeats && !s.timers.timerNodeActive (.timer t)

/-- The second half of `timer_event_node_callback`, after the user's callback has returned. -/
def timerReturnBy (add : Timeval → Timeval → Timeval) (s : TimerLoop) (t : ℕ) (τ : Timer)
    (clock : Timeval.Reading) : TimerLoop :=
  let s₁ := { s.setTimer t (some { τ with invokingCallback := false }) with control := .processing }
  if τ.deleted then s₁.setTimer t none
  else if s.reinserts t τ then
    let s₂ := s₁.assert (timeAddAsserts (s₁.loopNow clock) τ.after)
    let timers := s₂.timers.setTimeout (.timer t) (add (s₁.loopNow clock) τ.after)
    { s₂ with timers := timers.pushLast (.timer t) }.recordArming (.timer t) τ.after
  else s₁

def timerReturn (s : TimerLoop) (t : ℕ) (τ : Timer) (clock : Timeval.Reading) : TimerLoop :=
  s.timerReturnBy timeAdd t τ clock

/-! ## The transition system -/

/-- What the loop thread does next, with what it gets from outside. -/
inductive Action
  | timerNew (t : ℕ)
  | timerAdd (t : ℕ) (after : Timeval) (repeats : Bool) (callback : ℕ) (clock : Timeval.Reading)
      (alloc : Bool)
  | timerDel (t : ℕ)
  | timerFree (t : ℕ)
  | tcpTimeoutAdd (e : ℕ) (write : Bool) (after : Timeval) (clock : Timeval.Reading) (alloc : Bool)
  | tcpTimeoutDel (e : ℕ) (write : Bool)
  /-- Entry of `nanoev_loop_run`. -/
  | runEnter (clock : Timeval.Reading)
  | updateTime (clock : Timeval.Reading)
  | processTurn
  /-- The user's callback returns. -/
  | callbackReturn (clock : Timeval.Reading)
  /-- The time-out is computed and the poller is asked for events. -/
  | poll
  /-- The I/O part of the iteration ends and the next iteration begins. -/
  | nextIteration
  /-- The I/O part of the iteration ends and so does the run. -/
  | runExit
deriving DecidableEq, Repr

/-- User code may run: outside the loop, and in callbacks. -/
def inUserCode (s : TimerLoop) : Bool :=
  match s.control with
  | .idle | .timerCallback _ | .tcpCallback | .polling => true
  | .updating | .processing | .waiting => false

/-- The fields of a timer event that the client may still use. -/
def liveTimer (s : TimerLoop) (t : ℕ) : Option Timer := (s.timer t).filter fun τ ↦ !τ.deleted

/-- The transition function, with the addition of time values as a parameter. -/
def stepBy (add : Timeval → Timeval → Timeval) (s : TimerLoop) : Action → Option TimerLoop
  | .timerNew t => if s.inUserCode ∧ s.timer t = none then some (s.timerNew t) else none
  | .timerAdd t after repeats callback clock alloc =>
    if s.inUserCode then
      (s.liveTimer t).map fun τ ↦ (s.timerAddBy add t τ after repeats callback clock alloc).1
    else none
  | .timerDel t => if s.inUserCode then (s.liveTimer t).map fun τ ↦ (s.timerDel t τ).1 else none
  | .timerFree t => if s.inUserCode then (s.liveTimer t).map fun τ ↦ s.timerFree t τ else none
  | .tcpTimeoutAdd e write after clock alloc =>
    if s.inUserCode ∧ invalidDelay after = false then
      some (s.nodeAddBy add (.tcp e write) after clock alloc).1
    else none
  | .tcpTimeoutDel e write => if s.inUserCode then some (s.erase (.tcp e write)) else none
  | .runEnter clock =>
    if s.control = .idle then
      some { s with now := clock.1, control := .updating, elapsed := 0, arming := fun _ ↦ none }
    else none
  | .updateTime clock =>
    if s.control = .updating then some { s.updateTime clock with control := .processing } else none
  | .processTurn => if s.control = .processing then some s.processTurn else none
  | .callbackReturn clock =>
    match s.control with
    | .timerCallback t => (s.timer t).map fun τ ↦ s.timerReturnBy add t τ clock
    | .tcpCallback => some { s with control := .processing }
    | _ => none
  | .poll =>
    if s.control = .waiting then
      some { s.assert (s.timers.timersTimeoutAsserts s.now) with
        timeout := s.timers.timersTimeout s.now s.timeout
        control := .polling }
    else none
  | .nextIteration => if s.control = .polling then some { s with control := .updating } else none
  | .runExit => if s.control = .polling then some { s with control := .idle } else none

def step (s : TimerLoop) (a : Action) : Option TimerLoop := s.stepBy timeAdd a

def step64 (s : TimerLoop) (a : Action) : Option TimerLoop := s.stepBy timeAdd64 a

end TimerLoop

end Nanoev
