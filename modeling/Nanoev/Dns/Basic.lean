import Nanoev.Io.Async
import Nanoev.Transition.Run
import Mathlib.Logic.Function.Basic

/-!
# DNS events

The functions of `nanoev_dns.c`, as a system of threads. The threads of the loops call
`nanoev_dns_resolve` and `nanoev_event_free` and deliver results in `dns_on_async`; the threads of
the pool take events from its queue, ask the resolver, publish the answer in the event and notify
the loop; and `dns_term` stops the pool. What a thread does while it holds a lock is one step.
Between two steps every other thread may do something, in particular while
`dns_start_workers_locked` has released the lock of the pool and while the resolver works on the
copy of the host name.

An event belongs to one loop, whose thread is the only one to call functions on it; where that
thread is with respect to the event is part of the state of the event. The threads of different
events are not synchronized with each other here, which allows all that the threads of any number of
loops can do.

Events, threads and blocks of memory are numbered, and a number is not used twice. The event `d` has
the descriptors `2 * d` and `2 * d + 1` for its pipe. A block of memory is a copy of a host name or
an array of addresses. An access to memory that has been released is recorded as a fault and has no
other effect.

Three components are not in the source: the stage of an event, the owner of a block, and the records
of what has happened. No step depends on them.
-/

namespace Nanoev

/-! ## The object -/

/-- `NANOEV_AF_UNSPEC`. -/
def afUnspec : ℤ := 0

/-- `NANOEV_AF_INET`. -/
def afInet : ℤ := 2

/-- `NANOEV_AF_INET6`. -/
def afInet6 : ℤ := 10

def RetCode.value : RetCode → ℤ
  | .success => 0
  | .invalidArg => 1
  | .accessDenied => 2
  | .outOfMemory => 3
  | .fail => 4

/-- The arguments of `nanoev_dns_resolve`. -/
structure ResolveArgs where
  /-- `host` is not `NULL`. -/
  host : Bool
  family : ℤ
  port : ℕ
  callback : Option ℕ
deriving DecidableEq, Repr

/-- A request, once its host name has been copied. The copy identifies the request. -/
structure DnsRequest where
  event : ℕ
  host : ℕ
  family : ℤ
  port : ℕ
  callback : ℕ
deriving DecidableEq, Repr

structure Answer where
  status : ℤ
  addrs : Option ℕ
  addrCount : ℕ
deriving DecidableEq, Repr

/-- `struct nanoev_dns`. The pointers `host` and `addrs` are numbers of blocks. -/
structure Dns where
  queueNext : Option ℕ
  pending : Bool
  completed : Bool
  status : ℤ
  family : ℤ
  port : ℕ
  host : Option ℕ
  addrs : Option ℕ
  addrCount : ℕ
  callback : Option ℕ
  /-- `NANOEV_DNS_FLAG_DELETED`. -/
  deleted : Bool
deriving DecidableEq, Repr

/-- What `dns_on_async` takes out of the object. -/
structure Taken where
  callback : Option ℕ
  answer : Answer
  host : Option ℕ
  deleted : Bool
deriving DecidableEq, Repr

namespace Dns

/-- The object that `dns_new` makes. -/
def dnsNew : Dns where
  queueNext := none
  pending := false
  completed := false
  status := 0
  family := 0
  port := 0
  host := none
  addrs := none
  addrCount := 0
  callback := none
  deleted := false

/-- The tests of `nanoev_dns_resolve`, to the copy of the host name: the code that it returns, if it
returns there. -/
def refuses (o : Dns) (args : ResolveArgs) (memory : Bool) : Option RetCode :=
  if args.host = false ∨ args.callback = none then some .invalidArg
  else if args.family ≠ afUnspec ∧ args.family ≠ afInet ∧ args.family ≠ afInet6 then
    some .invalidArg
  else if o.pending ∨ o.deleted then some .accessDenied
  else if memory = false then some .outOfMemory
  else none

/-- `nanoev_dns_resolve` stores the request. -/
def start (o : Dns) (q : DnsRequest) : Dns :=
  { o with
    pending := true
    completed := false
    status := 0
    family := q.family
    port := q.port
    host := some q.host
    addrs := none
    addrCount := 0
    callback := some q.callback }

/-- `nanoev_dns_resolve` withdraws the request. -/
def withdraw (o : Dns) : Dns := { o with pending := false, host := none, callback := none }

/-- `dns_worker` publishes the answer. -/
def publish (o : Dns) (a : Answer) : Dns :=
  { o with status := a.status, addrs := a.addrs, addrCount := a.addrCount, completed := true }

def answer (o : Dns) : Answer := ⟨o.status, o.addrs, o.addrCount⟩

/-- What `dns_on_async` takes. -/
def taken (o : Dns) : Taken := ⟨o.callback, o.answer, o.host, o.deleted⟩

/-- What `dns_on_async` leaves. -/
def take (o : Dns) : Dns :=
  { o with
    pending := false
    completed := false
    callback := none
    addrs := none
    addrCount := 0
    host := none }

end Dns

/-! ## The threads -/

/-- `DNS_THREAD_COUNT`. -/
def dnsThreadCount : ℕ := 4

/-- `dns_thread_pool`. The list has the elements of `threads` up to `started`. -/
structure DnsPool where
  head : Option ℕ
  tail : Option ℕ
  initialized : Bool
  stopping : Bool
  threads : List ℕ
deriving DecidableEq, Repr

namespace DnsPool

def zero : DnsPool := ⟨none, none, false, false, []⟩

/-- `dns_init`. -/
def dnsInit : DnsPool := { zero with initialized := true }

end DnsPool

/-- Where the thread of the loop is in `nanoev_dns_resolve`. -/
inductive ResolvePc
  | away
  /-- The host name has been copied. -/
  | copied (q : DnsRequest)
  /-- Before `dns_enqueue`. -/
  | enqueue (q : DnsRequest)
  /-- In `dns_start_workers_locked` after a thread could not be created, perhaps in
  `thread_join`. -/
  | undo (q : DnsRequest) (joining : Option ℕ)
  /-- There, after all threads have been joined. -/
  | undone (q : DnsRequest)
  /-- `dns_enqueue` has failed. -/
  | failed (q : DnsRequest)
deriving DecidableEq, Repr

/-- Where the thread of the loop is in the delivery of a notification. -/
inductive OnAsyncPc
  | away
  /-- The byte has been read, and the completion of the async event has not been delivered. -/
  | completed
  /-- Before the call of `dns_on_async`. -/
  | calling
  /-- In `dns_on_async`, after the lock has been released. -/
  | taken (t : Taken)
  /-- In the callback of the user. -/
  | inCallback (addrs : Option ℕ)
  /-- In `dns_on_async`, after the callback. -/
  | finishing (addrs : Option ℕ) (deleted : Bool)
deriving DecidableEq, Repr

/-- The functions of the library may be called on the event. -/
def OnAsyncPc.client : OnAsyncPc → Bool
  | .away | .completed | .inCallback _ => true
  | _ => false

def OnAsyncPc.addrs : OnAsyncPc → Option ℕ
  | .taken t => t.answer.addrs
  | .inCallback b | .finishing b _ => b
  | _ => none

/-- Where a thread of the pool is in `dns_worker`. -/
inductive WorkerPc
  /-- At the top of the loop. -/
  | waiting
  /-- The event has been removed from the queue. -/
  | fetched (d : ℕ)
  /-- Before `getaddrinfo`. -/
  | resolving (d : ℕ) (host : Option ℕ) (family : ℤ) (port : ℕ)
  /-- Before the answer is stored. -/
  | publishing (d : ℕ) (a : Answer)
  /-- Before `dns->async` is read. -/
  | sending (d : ℕ)
  /-- In `nanoev_async_send`. -/
  | inSend (d : ℕ)
  | exited
deriving DecidableEq, Repr

/-- Where a thread is in `dns_term`, perhaps in `thread_join`. -/
inductive TermPc
  | away
  | joining (worker : Option ℕ)
  /-- After all threads have been joined. -/
  | leaving
deriving DecidableEq, Repr

/-- How far a request has come: the history of the event. -/
inductive Stage
  | idle
  | copied (q : DnsRequest)
  | preparing (q : DnsRequest)
  | queued (q : DnsRequest)
  | resolving (w : ℕ) (q : DnsRequest)
  | published (w : ℕ) (q : DnsRequest)
  | notified (q : DnsRequest)
  | delivering (q : DnsRequest)
deriving DecidableEq, Repr

/-- A DNS event: its object and its async event, each while its memory is allocated, and the thread
of its loop. -/
structure DnsEvent where
  dns : Option Dns
  async : Option Async
  call : ResolvePc
  delivery : OnAsyncPc
  stage : Stage
  /-- The user has called `nanoev_event_free`. -/
  freed : Bool

def DnsEvent.none : DnsEvent := ⟨Option.none, Option.none, .away, .away, .idle, false⟩

inductive BlockOwner
  /-- The host name of the current request of an event. -/
  | host (d : ℕ)
  /-- A thread of the pool that has not published its answer. -/
  | result (w : ℕ)
  /-- The field `addrs` of an object. -/
  | addrs (d : ℕ)
  /-- The thread of the loop in `dns_on_async`. -/
  | delivered (d : ℕ)
deriving DecidableEq, Repr

inductive DnsCell
  | dns (d : ℕ)
  | async (d : ℕ)
  | block (b : ℕ)
deriving DecidableEq, Repr

structure DnsCall where
  event : ℕ
  host : Option ℕ
  callback : ℕ
  answer : Answer
  /-- The event had been freed. -/
  freed : Bool
deriving DecidableEq, Repr

/-- The removal of an event from the queue, with the host name of its request. -/
structure Dequeued where
  worker : ℕ
  event : ℕ
  host : Option ℕ
deriving DecidableEq, Repr

structure DnsSystem where
  pool : DnsPool
  events : ℕ → DnsEvent
  workers : ℕ → WorkerPc
  term : TermPc
  /-- The blocks that are allocated. -/
  blocks : ℕ → Option BlockOwner
  nextEvent : ℕ
  nextWorker : ℕ
  nextBlock : ℕ
  /-- The requests for which `nanoev_dns_resolve` has returned `NANOEV_SUCCESS`, in the order in
  which they were enqueued. -/
  accepted : List DnsRequest
  dequeued : List Dequeued
  /-- What the resolver has answered for a host name, a family and a port. -/
  answers : ℕ → Option (ℤ × ℕ × Answer)
  calls : List DnsCall
  /-- What `nanoev_dns_resolve` has returned, and for which event. -/
  returned : List (ℕ × RetCode)
  /-- The events that `dns_destroy` has released. -/
  destroyed : List ℕ
  /-- The descriptors that `async_free` has closed. -/
  closed : List ℕ
  faults : List DnsCell

namespace DnsSystem

/-- The system before `dns_init`. -/
def init : DnsSystem where
  pool := .zero
  events := fun _ ↦ .none
  workers := fun _ ↦ .waiting
  term := .away
  blocks := fun _ ↦ none
  nextEvent := 0
  nextWorker := 0
  nextBlock := 0
  accepted := []
  dequeued := []
  answers := fun _ ↦ none
  calls := []
  returned := []
  destroyed := []
  closed := []
  faults := []

/-! ## Memory -/

def fault (s : DnsSystem) (c : DnsCell) : DnsSystem := { s with faults := s.faults ++ [c] }

def setEvent (s : DnsSystem) (d : ℕ) (e : DnsEvent) : DnsSystem :=
  { s with events := Function.update s.events d e }

def setWorker (s : DnsSystem) (w : ℕ) (pc : WorkerPc) : DnsSystem :=
  { s with workers := Function.update s.workers w pc }

def onDns (s : DnsSystem) (d : ℕ) (f : Dns → DnsSystem) : DnsSystem :=
  match (s.events d).dns with
  | some o => f o
  | none => s.fault (.dns d)

def onAsyncEvent (s : DnsSystem) (d : ℕ) (f : Async → DnsSystem) : DnsSystem :=
  match (s.events d).async with
  | some a => f a
  | none => s.fault (.async d)

def read (s : DnsSystem) (b : Option ℕ) : DnsSystem :=
  match b with
  | none => s
  | some b => if s.blocks b = none then s.fault (.block b) else s

/-- `mem_free`, of a pointer that may be `NULL`. -/
def memFree (s : DnsSystem) (b : Option ℕ) : DnsSystem :=
  match b with
  | none => s
  | some b =>
    if s.blocks b = none then s.fault (.block b)
    else { s with blocks := Function.update s.blocks b none }

def give (s : DnsSystem) (b : Option ℕ) (x : BlockOwner) : DnsSystem :=
  match b with
  | none => s
  | some b => { s with blocks := Function.update s.blocks b ((s.blocks b).map fun _ ↦ x) }

/-! ## The thread of the loop -/

/-- `dns_new`. -/
def dnsNew (s : DnsSystem) (sys : Sys) : DnsSystem :=
  let (a, _, ret) := Async.asyncNew.nanoevAsyncStart 0 sys ⟨2 * s.nextEvent, 0, 0⟩
  if ret = .success then
    { s.setEvent s.nextEvent { DnsEvent.none with dns := some .dnsNew, async := some a } with
      nextEvent := s.nextEvent + 1 }
  else s

/-- The thread of the loop of `d` may call a function of the library on `d`. -/
def mayCall (s : DnsSystem) (d : ℕ) : Prop :=
  d < s.nextEvent ∧ (s.events d).freed = false ∧ (s.events d).call = .away ∧
    (s.events d).delivery.client = true

instance (s : DnsSystem) (d : ℕ) : Decidable (s.mayCall d) := instDecidableAnd

/-- `nanoev_dns_resolve`, to the copy of the host name. -/
def resolve (s : DnsSystem) (d : ℕ) (args : ResolveArgs) (memory : Bool) : DnsSystem :=
  s.onDns d fun o ↦
    match o.refuses args memory with
    | some ret => { s with returned := s.returned ++ [(d, ret)] }
    | none =>
      let q : DnsRequest := ⟨d, s.nextBlock, args.family, args.port, args.callback.getD 0⟩
      { s.setEvent d { s.events d with call := .copied q, stage := .copied q } with
        blocks := Function.update s.blocks s.nextBlock (some (.host d))
        nextBlock := s.nextBlock + 1 }

/-- `nanoev_dns_resolve` stores the request in the object. -/
def submit (s : DnsSystem) (d : ℕ) (q : DnsRequest) : DnsSystem :=
  s.onDns d fun o ↦
    s.setEvent d
      { s.events d with dns := some (o.start q), call := .enqueue q, stage := .preparing q }

/-- `dns_enqueue` links the object behind the last one. -/
def link (s : DnsSystem) (d : ℕ) : DnsSystem :=
  s.onDns d fun o ↦
    let s := s.setEvent d { s.events d with dns := some { o with queueNext := none } }
    let s :=
      match s.pool.tail with
      | some k =>
        s.onDns k fun o ↦
          s.setEvent k { s.events k with dns := some { o with queueNext := some d } }
      | none => { s with pool := { s.pool with head := some d } }
    { s with pool := { s.pool with tail := some d } }

/-- `dns_enqueue` links the object and `nanoev_dns_resolve` returns. -/
def accept (s : DnsSystem) (d : ℕ) (q : DnsRequest) : DnsSystem :=
  let s := s.link d
  { s.setEvent d { s.events d with call := .away, stage := .queued q } with
    accepted := s.accepted ++ [q]
    returned := s.returned ++ [(d, .success)] }

/-- `dns_start_workers_locked` creates threads. -/
def createWorkers (s : DnsSystem) (n : ℕ) : DnsSystem :=
  { s with
    pool := { s.pool with threads := List.range' s.nextWorker n }
    nextWorker := s.nextWorker + n }

/-- `dns_enqueue`, until it releases the lock for the first time. Of the threads, `n` can be
created. -/
def dnsEnqueue (s : DnsSystem) (d : ℕ) (q : DnsRequest) (n : ℕ) : DnsSystem :=
  if s.pool.initialized = false ∨ s.pool.stopping = true then
    s.setEvent d { s.events d with call := .failed q }
  else if s.pool.threads ≠ [] then s.accept d q
  else if n < dnsThreadCount then
    let s := s.createWorkers n
    { s.setEvent d { s.events d with call := .undo q none } with
      pool := { s.pool with stopping := true } }
  else (s.createWorkers dnsThreadCount).accept d q

/-- `dns_start_workers_locked` takes the last thread off the pool, to join it. -/
def undoPop (s : DnsSystem) (d : ℕ) (q : DnsRequest) (w : ℕ) : DnsSystem :=
  { s.setEvent d { s.events d with call := .undo q (some w) } with
    pool := { s.pool with threads := s.pool.threads.dropLast } }

/-- The join of `dns_start_workers_locked` returns. -/
def undoJoin (s : DnsSystem) (d : ℕ) (q : DnsRequest) : DnsSystem :=
  s.setEvent d { s.events d with call := .undo q none }

/-- The loop of `dns_start_workers_locked` ends. -/
def undoLeave (s : DnsSystem) (d : ℕ) (q : DnsRequest) : DnsSystem :=
  s.setEvent d { s.events d with call := .undone q }

/-- `dns_start_workers_locked` fails. -/
def undoFinish (s : DnsSystem) (d : ℕ) (q : DnsRequest) : DnsSystem :=
  { s.setEvent d { s.events d with call := .failed q } with
    pool := { s.pool with stopping := false } }

/-- `nanoev_dns_resolve` withdraws the request and returns. -/
def withdraw (s : DnsSystem) (d : ℕ) (q : DnsRequest) : DnsSystem :=
  s.onDns d fun o ↦
    let s := s.setEvent d { s.events d with dns := some o.withdraw, call := .away, stage := .idle }
    let s := s.memFree (some q.host)
    { s with returned := s.returned ++ [(d, .fail)] }

/-- `dns_destroy`. `nanoev_event_free` releases the async event at once or marks it as deleted. -/
def dnsDestroy (s : DnsSystem) (d : ℕ) : DnsSystem :=
  s.onDns d fun o ↦
    let s := s.onAsyncEvent d fun a ↦
      if a.asyncFreeDefers then
        s.setEvent d { s.events d with async := some { a with deleted := true } }
      else
        { s.setEvent d { s.events d with async := none } with
          closed := s.closed ++ a.closePipes.filterMap IoEffect.closed? }
    let s := (s.memFree o.host).memFree o.addrs
    { s.setEvent d { s.events d with dns := none } with destroyed := s.destroyed ++ [d] }

/-- `dns_free`. -/
def dnsFree (s : DnsSystem) (d : ℕ) : DnsSystem :=
  let s := s.setEvent d { s.events d with freed := true }
  s.onDns d fun o ↦
    if o.pending then s.setEvent d { s.events d with dns := some { o with deleted := true } }
    else s.dnsDestroy d

/-- `reactor_cb` reads the pipe of the async event. -/
def reactorCb (s : DnsSystem) (d : ℕ) (a : Async) (sys : Sys) : DnsSystem :=
  s.setEvent d { s.events d with async := some (a.reactorCb sys), delivery := .completed }

/-- `__async_proactor_callback`. -/
def asyncProactorCallback (s : DnsSystem) (d : ℕ) : DnsSystem :=
  s.onAsyncEvent d fun a ↦
    s.setEvent d { s.events d with
      async := some a.asyncProactorCallback.1
      delivery := if a.asyncProactorCallback.2 = [] then .away else .calling }

/-- `dns_on_async`, while it holds the lock. The object is the user data of the async event. -/
def dnsOnAsync (s : DnsSystem) (d : ℕ) : DnsSystem :=
  s.onAsyncEvent d fun _ ↦ s.onDns d fun o ↦
    if o.completed then
      let stage : Stage :=
        match (s.events d).stage with
        | .notified q => .delivering q
        | stage => stage
      (s.setEvent d
        { s.events d with dns := some o.take, delivery := .taken o.taken, stage }).give
          o.addrs (.delivered d)
    else s.setEvent d { s.events d with delivery := .away }

/-- `dns_on_async` releases the host name and calls the callback. -/
def invoke (s : DnsSystem) (d : ℕ) (t : Taken) : DnsSystem :=
  let s := s.memFree t.host
  match t.deleted, t.callback with
  | false, some op =>
    { s.setEvent d { s.events d with delivery := .inCallback t.answer.addrs, stage := .idle } with
      calls := s.calls ++ [⟨d, t.host, op, t.answer, (s.events d).freed⟩] }
  | deleted, _ =>
    s.setEvent d
      { s.events d with delivery := .finishing t.answer.addrs deleted, stage := .idle }

def callbackReturn (s : DnsSystem) (d : ℕ) (addrs : Option ℕ) : DnsSystem :=
  s.setEvent d { s.events d with delivery := .finishing addrs false }

/-- `dns_on_async` releases the addresses, and the object if the event has been freed. -/
def finish (s : DnsSystem) (d : ℕ) (addrs : Option ℕ) (deleted : Bool) : DnsSystem :=
  let s := (s.memFree addrs).setEvent d { s.events d with delivery := .away }
  if deleted then s.dnsDestroy d else s

/-! ## The threads of the pool -/

/-- `dns_worker` removes the first object from the queue. -/
def dequeue (s : DnsSystem) (w d : ℕ) : DnsSystem :=
  s.onDns d fun o ↦
    let stage : Stage :=
      match (s.events d).stage with
      | .queued q => .resolving w q
      | stage => stage
    { (s.setEvent d { s.events d with dns := some { o with queueNext := none }, stage }).setWorker w
        (.fetched d) with
      pool :=
        { s.pool with
          head := o.queueNext
          tail := if o.queueNext = none then none else s.pool.tail }
      dequeued := s.dequeued ++ [⟨w, d, o.host⟩] }

/-- `dns_worker` reads the request. -/
def fetch (s : DnsSystem) (w d : ℕ) : DnsSystem :=
  s.onDns d fun o ↦ s.setWorker w (.resolving d o.host o.family o.port)

/-- What `getaddrinfo` returns, and what `dns_copy_results` finds. -/
inductive Lookup
  | error (e : Errno)
  /-- A list with `usable` addresses of a known family and size; `memory` is whether there is memory
  for a copy. -/
  | found (usable : ℕ) (memory : Bool)
deriving DecidableEq, Repr

/-- The call of `dns_copy_results` allocates a block. -/
def Lookup.allocates : Lookup → Bool
  | .error _ => false
  | .found usable memory => decide (usable ≠ 0) && memory

/-- The answer to a request, with the number of the new block. -/
def Lookup.answer (r : Lookup) (block : ℕ) : Answer :=
  match r with
  | .error e => ⟨e.1, none, 0⟩
  | .found usable memory =>
    if usable = 0 then ⟨RetCode.fail.value, none, 0⟩
    else if memory = false then ⟨RetCode.outOfMemory.value, none, 0⟩
    else ⟨RetCode.success.value, some block, usable⟩

/-- `dns_worker` calls `getaddrinfo` and copies the results. -/
def getaddrinfo (s : DnsSystem) (w d : ℕ) (host : Option ℕ) (family : ℤ) (port : ℕ) (r : Lookup) :
    DnsSystem :=
  let a := r.answer s.nextBlock
  let s := s.read host
  let s :=
    if r.allocates then
      { s with
        blocks := Function.update s.blocks s.nextBlock (some (.result w))
        nextBlock := s.nextBlock + 1 }
    else s
  { s.setWorker w (.publishing d a) with
    answers :=
      match host with
      | some h => Function.update s.answers h (some (family, port, a))
      | none => s.answers }

/-- `dns_worker` publishes the answer. -/
def publish (s : DnsSystem) (w d : ℕ) (a : Answer) : DnsSystem :=
  s.onDns d fun o ↦
    let stage : Stage :=
      match (s.events d).stage with
      | .resolving _ q => .published w q
      | stage => stage
    ((s.setEvent d { s.events d with dns := some (o.publish a), stage }).setWorker w
      (.sending d)).give a.addrs (.addrs d)

/-- `dns_worker` reads `dns->async`. -/
def readAsync (s : DnsSystem) (w d : ℕ) : DnsSystem :=
  s.onDns d fun _ ↦ s.setWorker w (.inSend d)

/-- `nanoev_async_send`, which can write to the pipe. -/
def asyncSend (s : DnsSystem) (w d : ℕ) : DnsSystem :=
  s.onAsyncEvent d fun a ↦
    let stage : Stage :=
      match (s.events d).stage with
      | .published _ q => .notified q
      | stage => stage
    (s.setEvent d { s.events d with async := some (a.nanoevAsyncSend true).1, stage }).setWorker w
      .waiting

/-! ## Steps -/

inductive Action
  | init
  | new (sys : Sys)
  | resolve (d : ℕ) (args : ResolveArgs) (memory : Bool)
  | submit (d : ℕ)
  | enqueue (d : ℕ) (n : ℕ)
  | undoPop (d : ℕ)
  | undoJoin (d : ℕ)
  | undoLeave (d : ℕ)
  | undoFinish (d : ℕ)
  | withdraw (d : ℕ)
  | free (d : ℕ)
  | reactorCb (d : ℕ) (sys : Sys)
  | deliver (d : ℕ)
  | onAsync (d : ℕ)
  | invoke (d : ℕ)
  /-- The callback of the user reads the addresses. -/
  | readAddrs (d : ℕ)
  | callbackReturn (d : ℕ)
  | finish (d : ℕ)
  | dequeue (w : ℕ)
  /-- The thread returns from `dns_worker`. -/
  | exit (w : ℕ)
  | fetch (w : ℕ)
  | getaddrinfo (w : ℕ) (r : Lookup)
  | publish (w : ℕ)
  | readAsync (w : ℕ)
  | asyncSend (w : ℕ)
  | term
  | termPop
  | termJoin
  | termLeave
  | termFinish
deriving DecidableEq, Repr

def step (s : DnsSystem) : Action → Option DnsSystem
  | .init => if s.pool.initialized = false then some { s with pool := .dnsInit } else none
  | .new sys => some (s.dnsNew sys)
  | .resolve d args memory => if s.mayCall d then some (s.resolve d args memory) else none
  | .submit d =>
    match (s.events d).call with
    | .copied q => some (s.submit d q)
    | _ => none
  | .enqueue d n =>
    match (s.events d).call with
    | .enqueue q => some (s.dnsEnqueue d q n)
    | _ => none
  | .undoPop d =>
    match (s.events d).call, s.pool.threads.getLast? with
    | .undo q none, some w => some (s.undoPop d q w)
    | _, _ => none
  | .undoJoin d =>
    match (s.events d).call with
    | .undo q (some w) => if s.workers w = .exited then some (s.undoJoin d q) else none
    | _ => none
  | .undoLeave d =>
    match (s.events d).call with
    | .undo q none => if s.pool.threads = [] then some (s.undoLeave d q) else none
    | _ => none
  | .undoFinish d =>
    match (s.events d).call with
    | .undone q => some (s.undoFinish d q)
    | _ => none
  | .withdraw d =>
    match (s.events d).call with
    | .failed q => some (s.withdraw d q)
    | _ => none
  | .free d => if s.mayCall d then some (s.dnsFree d) else none
  | .reactorCb d sys =>
    match (s.events d).async with
    | some a =>
      if (s.events d).call = .away ∧ (s.events d).delivery = .away ∧ 0 < a.pipeBytes ∧
          a.reactorKernel sys = true then
        some (s.reactorCb d a sys)
      else none
    | none => none
  | .deliver d =>
    if (s.events d).call = .away ∧ (s.events d).delivery = .completed then
      some (s.asyncProactorCallback d)
    else none
  | .onAsync d => if (s.events d).delivery = .calling then some (s.dnsOnAsync d) else none
  | .invoke d =>
    match (s.events d).delivery with
    | .taken t => some (s.invoke d t)
    | _ => none
  | .readAddrs d =>
    match (s.events d).delivery with
    | .inCallback b => some (s.read b)
    | _ => none
  | .callbackReturn d =>
    match (s.events d).call, (s.events d).delivery with
    | .away, .inCallback b => some (s.callbackReturn d b)
    | _, _ => none
  | .finish d =>
    match (s.events d).delivery with
    | .finishing b deleted => some (s.finish d b deleted)
    | _ => none
  | .dequeue w =>
    match s.pool.head with
    | some d =>
      if w < s.nextWorker ∧ s.workers w = .waiting then some (s.dequeue w d) else none
    | none => none
  | .exit w =>
    if w < s.nextWorker ∧ s.workers w = .waiting ∧ s.pool.head = none ∧ s.pool.stopping = true then
      some (s.setWorker w .exited)
    else none
  | .fetch w =>
    match s.workers w with
    | .fetched d => some (s.fetch w d)
    | _ => none
  | .getaddrinfo w r =>
    match s.workers w with
    | .resolving d host family port => some (s.getaddrinfo w d host family port r)
    | _ => none
  | .publish w =>
    match s.workers w with
    | .publishing d a => some (s.publish w d a)
    | _ => none
  | .readAsync w =>
    match s.workers w with
    | .sending d => some (s.readAsync w d)
    | _ => none
  | .asyncSend w =>
    match s.workers w with
    | .inSend d => some (s.asyncSend w d)
    | _ => none
  | .term =>
    if s.term = .away ∧ s.pool.initialized = true then
      some { s with pool := { s.pool with stopping := true }, term := .joining none }
    else none
  | .termPop =>
    match s.term, s.pool.threads.getLast? with
    | .joining none, some w =>
      some { s with
        pool := { s.pool with threads := s.pool.threads.dropLast }, term := .joining (some w) }
    | _, _ => none
  | .termJoin =>
    match s.term with
    | .joining (some w) =>
      if s.workers w = .exited then some { s with term := .joining none } else none
    | _ => none
  | .termLeave =>
    if s.term = .joining none ∧ s.pool.threads = [] then some { s with term := .leaving } else none
  | .termFinish =>
    if s.term = .leaving then some { s with pool := .zero, term := .away } else none

/-- The steps, with what makes each of them possible. -/
inductive Steps (s : DnsSystem) : Action → DnsSystem → Prop
  | init (hinit : s.pool.initialized = false) : Steps s .init { s with pool := .dnsInit }
  | new {sys} : Steps s (.new sys) (s.dnsNew sys)
  | resolve {d args memory} (hmay : s.mayCall d) :
    Steps s (.resolve d args memory) (s.resolve d args memory)
  | submit {d q} (hc : (s.events d).call = .copied q) : Steps s (.submit d) (s.submit d q)
  | enqueue {d q n} (hc : (s.events d).call = .enqueue q) :
    Steps s (.enqueue d n) (s.dnsEnqueue d q n)
  | undoPop {d q w} (hc : (s.events d).call = .undo q none)
      (hlast : s.pool.threads.getLast? = some w) : Steps s (.undoPop d) (s.undoPop d q w)
  | undoJoin {d q w} (hc : (s.events d).call = .undo q (some w)) (hexit : s.workers w = .exited) :
    Steps s (.undoJoin d) (s.undoJoin d q)
  | undoLeave {d q} (hc : (s.events d).call = .undo q none) (hnil : s.pool.threads = []) :
    Steps s (.undoLeave d) (s.undoLeave d q)
  | undoFinish {d q} (hc : (s.events d).call = .undone q) :
    Steps s (.undoFinish d) (s.undoFinish d q)
  | withdraw {d q} (hc : (s.events d).call = .failed q) : Steps s (.withdraw d) (s.withdraw d q)
  | free {d} (hmay : s.mayCall d) : Steps s (.free d) (s.dnsFree d)
  | reactorCb {d sys a} (ha : (s.events d).async = some a)
      (hready : (s.events d).call = .away ∧ (s.events d).delivery = .away ∧ 0 < a.pipeBytes ∧
        a.reactorKernel sys = true) : Steps s (.reactorCb d sys) (s.reactorCb d a sys)
  | deliver {d} (hready : (s.events d).call = .away ∧ (s.events d).delivery = .completed) :
    Steps s (.deliver d) (s.asyncProactorCallback d)
  | onAsync {d} (hpc : (s.events d).delivery = .calling) : Steps s (.onAsync d) (s.dnsOnAsync d)
  | invoke {d x} (hpc : (s.events d).delivery = .taken x) : Steps s (.invoke d) (s.invoke d x)
  | readAddrs {d b} (hpc : (s.events d).delivery = .inCallback b) :
    Steps s (.readAddrs d) (s.read b)
  | callbackReturn {d b} (hc : (s.events d).call = .away)
      (hpc : (s.events d).delivery = .inCallback b) :
    Steps s (.callbackReturn d) (s.callbackReturn d b)
  | finish {d b deleted} (hpc : (s.events d).delivery = .finishing b deleted) :
    Steps s (.finish d) (s.finish d b deleted)
  | dequeue {w d} (hhead : s.pool.head = some d)
      (hready : w < s.nextWorker ∧ s.workers w = .waiting) : Steps s (.dequeue w) (s.dequeue w d)
  | exit {w} (hready : w < s.nextWorker ∧ s.workers w = .waiting ∧ s.pool.head = none ∧
      s.pool.stopping = true) : Steps s (.exit w) (s.setWorker w .exited)
  | fetch {w d} (hpc : s.workers w = .fetched d) : Steps s (.fetch w) (s.fetch w d)
  | getaddrinfo {w r d host family port} (hpc : s.workers w = .resolving d host family port) :
    Steps s (.getaddrinfo w r) (s.getaddrinfo w d host family port r)
  | publish {w d a} (hpc : s.workers w = .publishing d a) : Steps s (.publish w) (s.publish w d a)
  | readAsync {w d} (hpc : s.workers w = .sending d) : Steps s (.readAsync w) (s.readAsync w d)
  | asyncSend {w d} (hpc : s.workers w = .inSend d) : Steps s (.asyncSend w) (s.asyncSend w d)
  | term (hready : s.term = .away ∧ s.pool.initialized = true) :
    Steps s .term { s with pool := { s.pool with stopping := true }, term := .joining none }
  | termPop {w} (hterm : s.term = .joining none) (hlast : s.pool.threads.getLast? = some w) :
    Steps s .termPop
      { s with
        pool := { s.pool with threads := s.pool.threads.dropLast }, term := .joining (some w) }
  | termJoin {w} (hterm : s.term = .joining (some w)) (hexit : s.workers w = .exited) :
    Steps s .termJoin { s with term := .joining none }
  | termLeave (hready : s.term = .joining none ∧ s.pool.threads = []) :
    Steps s .termLeave { s with term := .leaving }
  | termFinish (hterm : s.term = .leaving) :
    Steps s .termFinish { s with pool := .zero, term := .away }

theorem step_eq_some {s t : DnsSystem} {a : Action} (h : s.step a = some t) : s.Steps a t := by
  cases a
  all_goals
    simp only [step] at h
    repeat' split at h
    all_goals cases h
    all_goals constructor <;> assumption

end DnsSystem

end Nanoev
