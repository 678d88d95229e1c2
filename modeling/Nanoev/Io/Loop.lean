import Nanoev.Transition.Run
import Nanoev.Io.Tcp
import Nanoev.Io.Udp
import Nanoev.Io.Async
import Mathlib.Logic.Function.Basic
import Mathlib.Tactic.Simps.Basic

/-!
# The loop, its events and their client

`IoLoop` is the state of a loop with its TCP, UDP and async events on the epoll backend: the memory
of the events, the list of events whose deletion is deferred, the queue of the poller and the batch
of completions that `nanoev_loop_run` is working off. `step` performs one action. An action is a
call of the client, which may come from outside the loop or from inside any callback, a step of the
loop, or what the kernel does: a descriptor becomes ready, a timeout expires.

A callback of the client is not nested into the step that invokes it. The library always invokes it
last, so the step ends there and leaves the loop in a phase in which the client acts until the
callback returns.

Besides the state of the program, `IoLoop` keeps a record of what has happened: the operations
started, the callbacks invoked, the descriptors opened and closed. No step depends on it.
-/

namespace Nanoev

open Transition

inductive EventType
  | tcp
  | udp
  | async
deriving DecidableEq, Repr

inductive Obj
  | tcp (t : Tcp)
  | udp (u : Udp)
  | async (a : Async)
deriving DecidableEq, Repr

namespace Obj

def proactor : Obj → Proactor
  | tcp t => t.toProactor
  | udp u => u.toProactor
  | async a => a.toProactor

def setProactor : Obj → Proactor → Obj
  | tcp t, p => tcp { t with toProactor := p }
  | udp u, p => udp { u with toProactor := p }
  | async a, p => async { a with toProactor := p }

def type : Obj → EventType
  | tcp _ => .tcp
  | udp _ => .udp
  | async _ => .async

def sock : Obj → Option Socket
  | tcp t => t.sock
  | udp u => u.sock
  | async a => a.pipeR

/-- The interest that the epoll instance holds for the event. -/
def interest (o : Obj) : Mask := (o.sock.map Socket.interest).getD .empty

/-- There is a callback for a completion of the direction. -/
def hasCallback : Obj → Dir → Bool
  | tcp t, .read => t.onRead.isSome || t.onAccept.isSome
  | tcp t, .write => t.onWrite.isSome || t.onConnect.isSome
  | udp u, .read => u.onRead.isSome
  | udp u, .write => u.onWrite.isSome
  | async a, _ => a.onAsync.isSome

/-- `tcp_new`, `udp_new` or `async_new`. -/
def new : EventType → Obj
  | .tcp => tcp .tcpNew
  | .udp => udp .udpNew
  | .async => async .asyncNew

/-- What `__free_proactor` makes of the event before its memory is released or its deletion is
deferred. -/
def freed : Obj → Obj
  | tcp t => tcp t.tcpFree.1
  | udp u => udp u.udpFree.1
  | async a => async a

/-- `__free_proactor` defers the deletion. -/
def freeDefers : Obj → Bool
  | tcp t => t.reading || t.writing
  | udp u => u.reading || u.writing
  | async a => a.asyncFreeDefers

/-- The descriptors that `__free_proactor` closes. -/
def freeCloses : Obj → List ℕ
  | tcp t => t.tcpFree.2.filterMap IoEffect.closed?
  | udp u => u.udpFree.2.filterMap IoEffect.closed?
  | async a => if a.asyncFreeDefers then [] else a.closePipes.filterMap IoEffect.closed?

end Obj

/-! ## State -/

/-- Where `nanoev_loop_run` is. -/
inductive Phase
  /-- The loop is not running: the client acts. -/
  | idle
  /-- In `timers_process`. -/
  | timers
  /-- In a callback that `timers_process` has led to: the client acts. -/
  | timerCallback
  /-- Before `poller_poll`. -/
  | waiting
  /-- In `epoll_poller_poll`: the events that `epoll_wait` has reported so far, and the directions
  of the last one that are still to be offered to its `reactor_cb`. -/
  | polling (reported : List ℕ) (offers : List (ℕ × Dir))
  /-- Working off the batch. -/
  | dispatching
  /-- In a callback that a completion has led to: the client acts. -/
  | ioCallback
deriving DecidableEq, Repr

def Phase.client : Phase → Bool
  | .idle | .timerCallback | .ioCallback => true
  | _ => false

/-- A call that starts an operation on a TCP event, with what it returned. -/
structure Op where
  event : ℕ
  kind : OpKind
  buf : IoBuf
  ret : RetCode
deriving DecidableEq, Repr

/-- The invocation of a callback by an event; `freed` is whether the client had freed it. -/
structure CallRecord where
  type : EventType
  event : ℕ
  freed : Bool
  call : Call
deriving DecidableEq, Repr

/-- Data received by `reactor_cb` of a UDP event: the buffer it was put into, and the buffer of the
read that was pending then. -/
structure Received where
  event : ℕ
  buf : IoBuf
  pending : Option IoBuf
deriving DecidableEq, Repr

/-- A completion handed to a proactor, with what it finds there if the memory is still the event's:
whether the flag of the direction is set, and whether there is a callback. -/
structure Delivery where
  type : Option EventType
  event : ℕ
  ctx : Dir
  found : Option (Bool × Bool)
deriving DecidableEq, Repr

/-- The state of a loop and its events, and the record of what has happened. -/
structure IoLoop where
  mem : ℕ → Option Obj
  /-- `endgame_proactor_listhead`. -/
  endgameHead : Option ℕ
  /-- The completions in the queue of the poller. -/
  queue : List (ℕ × Dir)
  /-- The rest of the batch that is being worked off. -/
  batch : List (ℕ × Dir)
  phase : Phase
  nextEvent : ℕ
  nextFd : ℕ
  nextUserdata : ℕ
  nextOp : ℕ
  typeOf : ℕ → Option EventType
  /-- The events on which the client has called `nanoev_event_free`. -/
  freed : ℕ → Bool
  /-- The events whose memory has been released, in order. -/
  released : List ℕ
  ops : ℕ → Option Op
  calls : List CallRecord
  opened : List ℕ
  accepted : List ℕ
  closed : List ℕ
  userdataAllocated : List ℕ
  userdataFreed : List ℕ
  /-- The user data of the events that were passed to `on_accept`. -/
  userdataHanded : List ℕ
  /-- The buffer of the `nanoev_udp_read` that is pending on an event. -/
  udpPending : ℕ → Option IoBuf
  received : List Received
  deliveries : List Delivery
  /-- The events on which an assertion has failed. -/
  assertFailures : List ℕ

namespace IoLoop

def init : IoLoop where
  mem := fun _ ↦ none
  endgameHead := none
  queue := []
  batch := []
  phase := .idle
  nextEvent := 0
  nextFd := 3
  nextUserdata := 0
  nextOp := 0
  typeOf := fun _ ↦ none
  freed := fun _ ↦ false
  released := []
  ops := fun _ ↦ none
  calls := []
  opened := []
  accepted := []
  closed := []
  userdataAllocated := []
  userdataFreed := []
  userdataHanded := []
  udpPending := fun _ ↦ none
  received := []
  deliveries := []
  assertFailures := []

/-! ## Effects -/

def fresh (s : IoLoop) : Fresh := ⟨s.nextFd, s.nextEvent, s.nextUserdata⟩

/-- Performs the effects of a function that works on event `i`. -/
@[simps] def perform (s : IoLoop) (type : EventType) (i : ℕ) (effects : List IoEffect) : IoLoop :=
  { s with
    queue := s.queue ++ (effects.filterMap IoEffect.submitted?).map fun d ↦ (i, d)
    nextEvent := s.nextEvent + 1
    nextFd := s.nextFd + 2
    nextUserdata := s.nextUserdata + 1
    calls := s.calls ++
      (effects.filterMap IoEffect.call?).map fun c ↦ ⟨type, i, s.freed i, c⟩
    opened := s.opened ++ effects.filterMap IoEffect.opened?
    accepted := s.accepted ++ effects.filterMap IoEffect.accepted?
    closed := s.closed ++ effects.filterMap IoEffect.closed?
    userdataAllocated := s.userdataAllocated ++ effects.filterMap IoEffect.allocated?
    userdataFreed := s.userdataFreed ++ effects.filterMap IoEffect.freed?
    assertFailures := s.assertFailures ++
      (effects.filterMap IoEffect.assertFailed?).map fun _ ↦ i }

/-- Stores the memory of event `i`. -/
@[simps] def put (s : IoLoop) (i : ℕ) (o : Obj) : IoLoop :=
  { s with mem := Function.update s.mem i (some o) }

/-- The event for an accepted connection, if there is one, is passed to the client. -/
def addClient (s : IoLoop) (n : ℕ) : Option Tcp → IoLoop
  | none => s
  | some client =>
    { s with
      mem := Function.update s.mem n (some (.tcp client))
      typeOf := Function.update s.typeOf n (some .tcp)
      userdataHanded := s.userdataHanded ++ client.userdata.toList }

def invokes (effects : List IoEffect) : Bool := effects.any fun e ↦ e.call?.isSome

/-! ## Freeing -/

/-- `add_endgame_proactor`. -/
@[simps] def addEndgameProactor (s : IoLoop) (i : ℕ) (o : Obj) : IoLoop :=
  { s with
    mem := Function.update s.mem i
      (some (o.setProactor { o.proactor with deleted := true, next := s.endgameHead }))
    endgameHead := some i
    assertFailures := if o.proactor.deleted then s.assertFailures ++ [i] else s.assertFailures }

/-- `mem_free`. -/
@[simps] def release (s : IoLoop) (i : ℕ) : IoLoop :=
  { s with mem := Function.update s.mem i none, released := s.released ++ [i] }

/-- `__free_proactor`. -/
def freeProactor (s : IoLoop) (i : ℕ) (o : Obj) : IoLoop :=
  let s' := { s with closed := s.closed ++ o.freeCloses }
  if o.freeDefers then s'.addEndgameProactor i o.freed else s'.release i

/-- A pointer to a pointer into the list of deferred deletions: the head, or the `next` of an
event. -/
inductive Cursor
  | head
  | next (i : ℕ)
deriving DecidableEq, Repr

/-- `*cur`. -/
def load (s : IoLoop) : Cursor → Option ℕ
  | .head => s.endgameHead
  | .next i => (s.mem i).bind fun o ↦ o.proactor.next

/-- `*cur = p`. -/
def store (s : IoLoop) (p : Option ℕ) : Cursor → IoLoop
  | .head => { s with endgameHead := p }
  | .next i =>
    match s.mem i with
    | none => s
    | some o => s.put i (o.setProactor { o.proactor with next := p })

/-- The body of the loop in `__process_endgame_proactor(loop, 0)`, for the event `*cur`. -/
def endgameStep (s : IoLoop) (cur : Cursor) (i : ℕ) (o : Obj) : IoLoop × Cursor :=
  if !o.proactor.writing && !o.proactor.reading then
    ((s.freeProactor i o).store o.proactor.next cur, cur)
  else (s, .next i)

/-- `__process_endgame_proactor(loop, 0)` from the given cursor, with at most `fuel` rounds; there
is no result when they do not suffice or the memory of an event on the list is gone. -/
def endgameLoop : ℕ → IoLoop → Cursor → Option IoLoop
  | 0, _, _ => none
  | fuel + 1, s, cur =>
    match s.load cur with
    | none => some s
    | some i =>
      match s.mem i with
      | none => none
      | some o =>
        let r := s.endgameStep cur i o
        endgameLoop fuel r.1 r.2

/-- `__process_endgame_proactor(loop, 0)`. -/
def processEndgameProactor (s : IoLoop) : Option IoLoop := endgameLoop (s.nextEvent + 1) s .head

/-! ## Calls of the client -/

/-- The memory of an event that the client has not freed. -/
def live (s : IoLoop) (i : ℕ) : Option Obj := if s.freed i then none else s.mem i

/-- `nanoev_event_new`, when there is memory. -/
def eventNew (s : IoLoop) (type : EventType) : IoLoop :=
  { s.put s.nextEvent (.new type) with
    typeOf := Function.update s.typeOf s.nextEvent (some type)
    nextEvent := s.nextEvent + 1 }

/-- `nanoev_event_free`. -/
def eventFree (s : IoLoop) (i : ℕ) (o : Obj) : IoLoop :=
  { s.freeProactor i o with freed := Function.update s.freed i true }

def tcpCall (s : IoLoop) (i : ℕ) (t : Tcp) (c : TcpCall) (sys : Sys) : IoLoop :=
  let (t', effects, ret) := c.run t s.nextOp sys s.fresh
  { (s.perform .tcp i effects).put i (.tcp t') with
    ops :=
      match c.op? with
      | some (kind, buf) => Function.update s.ops s.nextOp (some ⟨i, kind, buf, ret⟩)
      | none => s.ops
    nextOp := s.nextOp + 1 }

def udpCall (s : IoLoop) (i : ℕ) (u : Udp) (c : UdpCall) (sys : Sys) : IoLoop :=
  let (u', effects, ret) := c.run u s.nextOp sys s.fresh
  { (s.perform .udp i effects).put i (.udp u') with
    udpPending :=
      match c, ret with
      | .read b _, .success => Function.update s.udpPending i (some b)
      | _, _ => s.udpPending
    nextOp := s.nextOp + 1 }

/-- `nanoev_async_start`. -/
def asyncStart (s : IoLoop) (i : ℕ) (a : Async) (sys : Sys) : IoLoop :=
  let (a', effects, _) := a.nanoevAsyncStart s.nextOp sys s.fresh
  { (s.perform .async i effects).put i (.async a') with nextOp := s.nextOp + 1 }

/-! ## Steps of the loop -/

def timeoutFires (s : IoLoop) (i : ℕ) (t : Tcp) (d : Dir) (sys : Sys) : IoLoop :=
  let (t', effects) := t.timeoutFires d sys
  { (s.perform .tcp i effects).put i (.tcp t') with
    phase := if invokes effects then .timerCallback else .timers }

/-- What `epoll_wait` reports for an event, by the order in which `epoll_poller_poll` tests the
bits: `EPOLLIN`, else `EPOLLOUT`, else `EPOLLERR` or `EPOLLHUP`. -/
inductive Report
  | readable
  | writable
  | hangup
deriving DecidableEq, Repr

/-- The kernel reports readiness in a direction only to those interested in it. -/
def Report.possible (r : Report) (interest : Mask) : Bool :=
  match r with
  | readable => interest.read
  | writable => interest.write
  | hangup => interest.read || interest.write

/-- The kernel reports the read end of a pipe as readable when the pipe holds a byte, and reports
nothing else while the other end is open. -/
def Report.allowed (r : Report) : Obj → Bool
  | .async a => decide (r = readable) && decide (0 < a.pipeBytes)
  | _ => true

/-- The directions that `epoll_poller_poll` offers to `reactor_cb`. -/
def Report.offers (r : Report) (i : ℕ) (reactorEvents : Mask) : List (ℕ × Dir) :=
  match r with
  | readable => [(i, .read)]
  | writable => [(i, .write)]
  | hangup =>
    (if reactorEvents.read then [(i, .read)] else []) ++
      if reactorEvents.write then [(i, .write)] else []

/-- The number of entries that `nanoev_loop_run` makes room for in a batch. -/
def maxEvents : ℕ := 256

/-- The completion for the batch, if the context is completed. -/
def completion (i : ℕ) (d : Dir) (completed : Bool) : List (ℕ × Dir) :=
  if completed then [(i, d)] else []

/-- `reactor_cb` of a TCP event. -/
def offerTcp (s : IoLoop) (i : ℕ) (t : Tcp) (d : Dir) (sys : Sys) : IoLoop :=
  let (t', completed, effects) := t.reactorCb d sys s.fresh
  { (s.perform .tcp i effects).put i (.tcp t') with
    batch := s.batch ++ completion i d completed }

/-- `reactor_cb` of a UDP event. -/
def offerUdp (s : IoLoop) (i : ℕ) (u : Udp) (d : Dir) (sys : Sys) : IoLoop :=
  let (u', completed) := u.reactorCb d sys
  { s.put i (.udp u') with
    batch := s.batch ++ completion i d completed
    received :=
      match d, sys.io with
      | .read, .done _ => s.received ++ [⟨i, u.bufRead, s.udpPending i⟩]
      | _, _ => s.received }

/-- `reactor_cb` of an async event. -/
def offerAsync (s : IoLoop) (i : ℕ) (a : Async) (d : Dir) (sys : Sys) : IoLoop :=
  { s.put i (.async (a.reactorCb sys)) with batch := s.batch ++ completion i d true }

/-- `epoll_append_reactor_event`, for a batch that is not full; there is no result when the kernel
cannot return the results in `sys`. -/
def appendReactorEvent (s : IoLoop) (i : ℕ) (d : Dir) (sys : Sys) : Option IoLoop :=
  match s.mem i with
  | some (.tcp t) => if t.reactorKernel d sys then some (s.offerTcp i t d sys) else none
  | some (.udp u) => if u.reactorKernel d sys then some (s.offerUdp i u d sys) else none
  | some (.async a) =>
    if a.reactorKernel sys ∧ d = .read then some (s.offerAsync i a d sys) else none
  | none => none

/-- The first completion of the batch is taken, and recorded with what it finds. -/
@[simps] def deliver (s : IoLoop) (i : ℕ) (d : Dir) (rest : List (ℕ × Dir)) : IoLoop :=
  { s with
    batch := rest
    deliveries := s.deliveries ++
      [⟨s.typeOf i, i, d, (s.mem i).map fun o ↦ (o.proactor.flag d, o.hasCallback d)⟩] }

/-- `tcp_proactor_callback`, for a completion of the batch. -/
def dispatchTcp (s : IoLoop) (i : ℕ) (t : Tcp) (d : Dir) (rest : List (ℕ × Dir)) (sys : Sys) :
    IoLoop :=
  let (t', client, effects) := t.tcpProactorCallback d sys s.fresh
  { (((s.deliver i d rest).perform .tcp i effects).put i (.tcp t')).addClient s.nextEvent
      client with
    phase := if invokes effects then .ioCallback else .dispatching }

/-- `udp_proactor_callback`, for a completion of the batch. -/
def dispatchUdp (s : IoLoop) (i : ℕ) (u : Udp) (d : Dir) (rest : List (ℕ × Dir)) (sys : Sys) :
    IoLoop :=
  let (u', effects) := u.udpProactorCallback d sys
  { ((s.deliver i d rest).perform .udp i effects).put i (.udp u') with
    udpPending := if d = .read then Function.update s.udpPending i none else s.udpPending
    phase := if invokes effects then .ioCallback else .dispatching }

/-- `__async_proactor_callback`, for a completion of the batch. -/
def dispatchAsync (s : IoLoop) (i : ℕ) (a : Async) (d : Dir) (rest : List (ℕ × Dir)) : IoLoop :=
  let (a', effects) := a.asyncProactorCallback
  { ((s.deliver i d rest).perform .async i effects).put i (.async a') with
    phase := if invokes effects then .ioCallback else .dispatching }

/-- `events[i].proactor->cb(events[i].proactor, events[i].ctx)`. -/
def dispatch (s : IoLoop) (i : ℕ) (d : Dir) (rest : List (ℕ × Dir)) (sys : Sys) : IoLoop :=
  match s.mem i with
  | some (.tcp t) => s.dispatchTcp i t d rest sys
  | some (.udp u) => s.dispatchUdp i u d rest sys
  | some (.async a) => s.dispatchAsync i a d rest
  -- the memory has been released: the source reads what is there now
  | none => s.deliver i d rest

/-! ## The step function -/

inductive Action
  | new (type : EventType)
  | free (i : ℕ)
  | tcp (i : ℕ) (c : TcpCall) (sys : Sys)
  | udp (i : ℕ) (c : UdpCall) (sys : Sys)
  | asyncStart (i : ℕ) (sys : Sys)
  /-- `nanoev_async_send`, from any thread. -/
  | asyncSend (i : ℕ) (written : Bool)
  | runEnter
  /-- `timers_process` invokes the callback of a timer event. -/
  | timerFires
  | timeoutFires (i : ℕ) (d : Dir) (sys : Sys)
  | callbackReturn
  | processEndgame
  /-- `epoll_poller_poll` finds completions in its queue. -/
  | takeQueued
  | epollWait
  | epollFails
  | report (i : ℕ) (r : Report)
  | offer (sys : Sys)
  | pollReturn
  | dispatch (sys : Sys)
  | nextRound
  | runExit
deriving DecidableEq, Repr

def step (s : IoLoop) : Action → Option IoLoop
  | .new type => if s.phase.client then some (s.eventNew type) else none
  | .free i =>
    match s.live i with
    | some o => if s.phase.client then some (s.eventFree i o) else none
    | none => none
  | .tcp i c sys =>
    match s.live i with
    | some (.tcp t) =>
      if s.phase.client && c.kernel sys then some (s.tcpCall i t c sys) else none
    | _ => none
  | .udp i c sys =>
    match s.live i with
    | some (.udp u) =>
      if s.phase.client && c.kernel sys then some (s.udpCall i u c sys) else none
    | _ => none
  | .asyncStart i sys =>
    match s.live i with
    | some (.async a) => if s.phase.client then some (s.asyncStart i a sys) else none
    | _ => none
  | .asyncSend i written =>
    match s.live i with
    | some (.async a) =>
      if a.started then some (s.put i (.async (a.nanoevAsyncSend written).1)) else none
    | _ => none
  | .runEnter => if s.phase = .idle then some { s with phase := .timers } else none
  | .timerFires => if s.phase = .timers then some { s with phase := .timerCallback } else none
  | .timeoutFires i d sys =>
    match s.mem i with
    | some (.tcp t) =>
      if s.phase = .timers ∧ (t.timeout d).active then some (s.timeoutFires i t d sys) else none
    | _ => none
  | .callbackReturn =>
    match s.phase with
    | .timerCallback => some { s with phase := .timers }
    | .ioCallback => some { s with phase := .dispatching }
    | _ => none
  | .processEndgame =>
    if s.phase = .timers then
      s.processEndgameProactor.map fun s' ↦ { s' with phase := .waiting }
    else none
  | .takeQueued =>
    if s.phase = .waiting ∧ s.queue ≠ [] then
      some { s with
        queue := s.queue.drop maxEvents
        batch := s.queue.take maxEvents
        phase := .dispatching }
    else none
  | .epollWait =>
    if s.phase = .waiting ∧ s.queue = [] then some { s with phase := .polling [] [] } else none
  | .epollFails =>
    if s.phase = .waiting ∧ s.queue = [] then some { s with phase := .idle } else none
  | .report i r =>
    match s.phase, s.mem i with
    | .polling reported [], some o =>
      if i ∉ reported ∧ reported.length < maxEvents ∧ r.possible o.interest ∧ r.allowed o then
        some { s with phase := .polling (i :: reported) (r.offers i o.proactor.reactorEvents) }
      else none
    | _, _ => none
  | .offer sys =>
    match s.phase with
    | .polling reported ((i, d) :: offers) =>
      if s.batch.length < maxEvents then
        (s.appendReactorEvent i d sys).map fun s' ↦ { s' with phase := .polling reported offers }
      else some { s with phase := .polling reported offers }
    | _ => none
  | .pollReturn =>
    match s.phase with
    | .polling _ [] => some { s with phase := .dispatching }
    | _ => none
  | .dispatch sys =>
    match s.phase, s.batch with
    | .dispatching, (i, d) :: rest => some (s.dispatch i d rest sys)
    | _, _ => none
  | .nextRound =>
    if s.phase = .dispatching ∧ s.batch = [] then some { s with phase := .timers } else none
  | .runExit =>
    if s.phase = .dispatching ∧ s.batch = [] then some { s with phase := .idle } else none

end IoLoop

end Nanoev
