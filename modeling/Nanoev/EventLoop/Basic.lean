import Nanoev.Io.Timeouts
import Nanoev.Timer.LoopInvariant

/-!
# The loop with its timer events and its I/O events

`TimerLoop` has the timers of a loop in full and knows of TCP events only that they put nodes into
the heap and take them out. `IoLoop` has the I/O events in full and knows of the heap only which of
the nodes of its TCP events are in it. `EventLoop` is both at once, over one heap: an action of the
I/O events carries along what it means for the timers.

What a function on a TCP event does to its nodes is read off its `active` fields: a node that has
come in was added by `timer_node_add`, with the delay of the call, and a node that has gone was
erased by `timer_node_del`. The answer of the heap to `timer_node_add` decides in turn what the
function does, so the `timerNode` of the system is not free here but computed from the heap.
`timers_process` picks the node that expires; only then is a step of the I/O events for it possible.

Timer events are numbered in the order of their creation, and a number is not used twice.
`timerFreed` and `timersReleased` are records that no step depends on.
-/

namespace Nanoev

open Transition

def Dir.isWrite : Dir → Bool
  | .read => false
  | .write => true

/-- The node of a direction of TCP event `e`. -/
def NodeRef.ofDir (e : ℕ) (d : Dir) : NodeRef := .tcp e d.isWrite

/-- The node whose callback `timers_process` calls next. -/
def TimerLoop.due (s : TimerLoop) : Option NodeRef :=
  if s.timers.size = 0 then none
  else if timeCmp (s.timers.node (s.timers.events 0)).timeout s.now > 0 then none
  else some (s.timers.events 0)

/-- `min_heap_insert` has room in its array, or gets memory for a larger one. -/
def TimerLoop.room (s : TimerLoop) (alloc : Bool) : Bool :=
  alloc || decide (s.timers.size < s.timers.capacity)

structure EventLoop where
  timers : TimerLoop
  io : IoLoop
  nextTimer : ℕ
  /-- The timer events on which the client has called `nanoev_event_free`. -/
  timerFreed : ℕ → Bool
  /-- The timer events whose memory has been released, in order. -/
  timersReleased : List ℕ

namespace EventLoop

/-- `nanoev_loop_new`. -/
def init : EventLoop where
  timers := .init
  io := .init
  nextTimer := 0
  timerFreed _ := false
  timersReleased := []

/-! ## What an action of the I/O events does to the timers -/

/-- The action with the answer that `timer_node_add` would give. -/
def withRoom (room : Bool) : IoLoop.Action → IoLoop.Action
  | .tcp i c sys => .tcp i c { sys with timerNode := room }
  | a => a

def delay : IoLoop.Action → Timeval
  | .tcp _ c _ => c.timeout?.getD ⟨0, 0⟩
  | _ => ⟨0, 0⟩

/-- What happens to a node that was in the heap or not before, and is or is not after. -/
def nodeActions (e : ℕ) (d : Dir) (before after : Bool) (delay : Timeval) (clock : Timeval.Reading)
    (alloc : Bool) : List TimerLoop.Action :=
  match before, after with
  | false, true => [.tcpTimeoutAdd e d.isWrite delay clock alloc]
  | true, false => [.tcpTimeoutDel e d.isWrite]
  | _, _ => []

/-- What happens to the nodes of the TCP event that an action calls a function of, from the states
before and after the call. A call that arms a timeout and disarms it again because it fails is no
action here; in the code the array may then have grown, and nodes with the same expiry may have
changed places. -/
def heapActions (io io' : IoLoop) (a : IoLoop.Action) (clock : Timeval.Reading) (alloc : Bool) :
    List TimerLoop.Action :=
  match io.subject a with
  | some e =>
    nodeActions e .read (io.armedAt e .read) (io'.armedAt e .read) (delay a) clock alloc ++
      nodeActions e .write (io.armedAt e .write) (io'.armedAt e .write) (delay a) clock alloc
  | none => []

/-- The part of the timers in an action that leads the I/O events to `io'`; there is none when it is
not the turn of the node. -/
def timerPart (s : EventLoop) (io' : IoLoop) (clock : Timeval.Reading) (alloc : Bool) :
    IoLoop.Action → Option (List TimerLoop.Action)
  | .runEnter => some [.runEnter clock]
  | .timerFires =>
    match s.timers.due with
    | some (.timer _) => some [.processTurn]
    | _ => none
  | .timeoutFires i d _ =>
    if s.timers.due = some (.ofDir i d) then
      -- the callback of the node may return without having called the client
      some (.processTurn :: if io'.phase = .timers then [.callbackReturn clock] else [])
    else none
  | .callbackReturn => some (if s.io.phase = .timerCallback then [.callbackReturn clock] else [])
  | .processEndgame => some [.poll]
  | .nextRound => some [.nextIteration]
  | .epollFails | .runExit => some [.runExit]
  | a => some (heapActions s.io io' a clock alloc)

/-! ## The transition system -/

/-- The memory of a timer event that a step has released. -/
def released (timers timers' : TimerLoop) (t : ℕ) : List ℕ :=
  if (timers.timer t).isSome && (timers'.timer t).isNone then [t] else []

/-- The memory that has been released by the end of a callback. -/
def releasedAtReturn (timers timers' : TimerLoop) : List ℕ :=
  match timers.control with
  | .timerCallback t => released timers timers' t
  | _ => []

/-- What may happen next: an action of the timers, or one of the I/O events with the reading of the
clock and the answer of `mem_realloc` for the heap. -/
inductive Action
  | timer (a : TimerLoop.Action)
  | io (a : IoLoop.Action) (clock : Timeval.Reading) (alloc : Bool)
deriving DecidableEq, Repr

/-- The actions of the timers in which the I/O events have no part. -/
def timerAlone (s : EventLoop) : TimerLoop.Action → Bool
  | .timerNew t => s.io.phase.client && decide (t = s.nextTimer)
  | .timerAdd .. | .timerDel _ | .timerFree _ => s.io.phase.client
  | .updateTime _ => true
  | .processTurn => decide (s.timers.due = none)
  | _ => false

def afterTimer (s : EventLoop) (timers' : TimerLoop) : TimerLoop.Action → EventLoop
  | .timerNew _ => { s with timers := timers', nextTimer := s.nextTimer + 1 }
  | .timerFree t =>
    { s with
      timers := timers'
      timerFreed := Function.update s.timerFreed t true
      timersReleased := s.timersReleased ++ released s.timers timers' t }
  | _ => { s with timers := timers' }

def afterIo (s : EventLoop) (timers' : TimerLoop) (io' : IoLoop) : EventLoop :=
  { s with
    timers := timers'
    io := io'
    timersReleased := s.timersReleased ++ releasedAtReturn s.timers timers' }

def step (s : EventLoop) : Action → Option EventLoop
  | .timer a =>
    if s.timerAlone a then (s.timers.step a).map fun timers' ↦ s.afterTimer timers' a else none
  | .io a clock alloc =>
    (s.io.step (withRoom (s.timers.room alloc) a)).bind fun io' ↦
      (s.timerPart io' clock alloc a).bind fun script ↦
        (exec TimerLoop.step anyStep s.timers script).map fun timers' ↦ s.afterIo timers' io'

end EventLoop

end Nanoev
