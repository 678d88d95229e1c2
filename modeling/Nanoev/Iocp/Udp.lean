import Nanoev.Io.Udp
import Mathlib.Logic.Function.Basic

/-!
# UDP events on a completion port

The functions of `nanoev_udp.c` in the Windows build, where they differ from the reactor backends,
and a loop with UDP events. A read or a write is one overlapped call. When the system accepts it, it
takes over the context of the direction, and a packet for it will arrive on the port that the socket
has been associated with. There is no readiness here: an operation is the system's from the call to
the packet, and the flag of the direction is set for just as long.

The results of the overlapped calls are `io`, where `WSA_IO_PENDING` is the result of a call that
would block, and `.submit d` stands for a context that the system has taken over. `epollCtl` is the
result of `CreateIoCompletionPort`. The address to send to is not stored in this build, so `toAddr`
and `writeConnected` are not used.
-/

namespace Nanoev.Iocp

/-! ## Functions on one event -/

/-- `create_udp_socket`, with its error code. `register_proactor` is `iocp_poller_modify`; a socket
that could not be associated with the port stays open. -/
def createUdpSocket (u : Udp) (family : ℕ) (sys : Sys) (fresh : Fresh) :
    Udp × List IoEffect × Option ℤ :=
  let asserts := assertEffect (u.sock = none)
  let u := { u with family }
  match sys.socket with
  | some e => (u, asserts, some e.1)
  | none =>
    let u := { u with sock := some ⟨fresh.fd, .empty⟩ }
    let effects := asserts ++ [.opened fresh.fd] ++ assertEffect (u.reactorEvents = .empty)
    match sys.epollCtl with
    | some _ => (u, effects, some (-1))
    | none => ({ u with reactorEvents := .evRead }, effects, none)

/-- `create_udp_socket`, if the event has no socket. -/
def openUdpSocket (u : Udp) (family : ℕ) (sys : Sys) (fresh : Fresh) :
    Udp × List IoEffect × Option ℤ :=
  if u.sock = none then createUdpSocket u family sys fresh else (u, [], none)

/-- `nanoev_udp_read`. -/
def nanoevUdpRead (u : Udp) (b : IoBuf) (callback : Option ℕ) (sys : Sys) :
    Udp × List IoEffect × RetCode :=
  if b.buf = 0 ∨ b.len = 0 ∨ callback = none then (u, [], .invalidArg)
  else if u.sock = none ∨ u.error ∨ u.deleted ∨ u.reading then (u, [], .accessDenied)
  else
    let u := { u with bufRead := b, ctxRead := ⟨0, 0⟩ }
    match sys.io with
    | .failed e => (u.setError e.1, [], .fail)
    | .done _ | .wouldBlock =>
      ({ u with reading := true, onRead := callback }, [.submit .read], .success)

/-- `nanoev_udp_write`. -/
def nanoevUdpWrite (u : Udp) (b : IoBuf) (toAddr : Option Addr) (callback : Option ℕ) (sys : Sys)
    (fresh : Fresh) : Udp × List IoEffect × RetCode :=
  if b.buf = 0 ∨ b.len = 0 ∨ callback = none then (u, [], .invalidArg)
  else if toAddr = none ∧ u.connected = false then (u, [], .invalidArg)
  else if u.error ∨ u.deleted ∨ u.writing then (u, [], .accessDenied)
  else
    -- the family of `to_addr` is read if there is no socket, without a test for a null pointer
    let address := assertEffect (u.sock.isSome || toAddr.isSome)
    match openUdpSocket u ((toAddr.map Addr.family).getD 0) sys fresh with
    | (u, opened, some e) => (u.setError e, address ++ opened, .fail)
    | (u, opened, none) =>
      if toAddr.any fun a ↦ a.family ≠ u.family then (u, address ++ opened, .invalidArg)
      else
        let u := { u with bufWrite := b, ctxWrite := ⟨0, 0⟩ }
        match sys.io with
        | .failed e => (u.setError e.1, address ++ opened, .fail)
        | .done _ | .wouldBlock =>
          ({ u with writing := true, onWrite := callback },
            address ++ opened ++ [.submit .write], .success)

/-- `nanoev_udp_connect`. -/
def nanoevUdpConnect (u : Udp) (addr : Option Addr) (sys : Sys) (fresh : Fresh) :
    Udp × List IoEffect × RetCode :=
  match addr with
  | none => (u, [], .invalidArg)
  | some a =>
    if u.error ∨ u.deleted ∨ u.reading ∨ u.writing then (u, [], .accessDenied)
    else if u.sock.isSome ∧ a.family ≠ u.family then (u, [], .invalidArg)
    else
      match openUdpSocket u a.family sys fresh with
      | (u, opened, some e) => (u.setError e, opened, .fail)
      | (u, opened, none) =>
        match sys.other with
        | some e => (u.setError e.1, opened, .fail)
        | none => ({ u with connected := true }, opened, .success)

/-- `nanoev_udp_bind`. -/
def nanoevUdpBind (u : Udp) (a : Addr) (sys : Sys) (fresh : Fresh) :
    Udp × List IoEffect × RetCode :=
  if u.sock.isSome ∨ u.error ∨ u.deleted then (u, [], .accessDenied)
  else
    match createUdpSocket u a.family sys fresh with
    | (u, opened, some e) => (u.setError e, opened, .fail)
    | (u, opened, none) =>
      match sys.bind with
      | some e => (u.setError e.1, opened, .fail)
      | none => (u, opened, .success)

/-- A call of the client, with `op` for the callback. -/
def runUdp (c : UdpCall) (u : Udp) (op : ℕ) (sys : Sys) (fresh : Fresh) :
    Udp × List IoEffect × RetCode :=
  match c with
  | .read b callback => nanoevUdpRead u b (if callback then some op else none) sys
  | .write b toAddr callback =>
    nanoevUdpWrite u b toAddr (if callback then some op else none) sys fresh
  | .connect peer => nanoevUdpConnect u peer sys fresh
  | .bind a => nanoevUdpBind u a sys fresh
  | .addr present => u.nanoevUdpAddr present sys
  | .setOption valid => u.udpSetOption valid sys

/-- The system writes the result of an operation into the context it has taken over. -/
def storeUdp (u : Udp) (d : Dir) (c : IoContext) : Udp :=
  match d with
  | .read => { u with ctxRead := c }
  | .write => { u with ctxWrite := c }

/-- `udp_proactor_callback`; the status in the context is the one after
`ntstatus_to_winsock_error`. -/
def udpProactorCallback (u : Udp) (d : Dir) : Udp × List IoEffect :=
  let status := (u.ctx d).status
  let bytes := (u.ctx d).bytes
  let u := if status ≠ 0 then u.setError status else u
  match d with
  | .read =>
    ({ u with reading := false, onRead := none },
      assertEffect u.reading ++ Udp.callAsserted u.onRead u.deleted status u.bufRead.buf bytes)
  | .write =>
    ({ u with writing := false, onWrite := none },
      assertEffect u.writing ++ Udp.callAsserted u.onWrite u.deleted status u.bufWrite.buf bytes)

/-! ## A loop with UDP events -/

/-- The memory of the events, the list of deferred deletions, and the operations whose packets have
not been handed to `udp_proactor_callback`. -/
structure UdpLoop where
  mem : ℕ → Option Udp
  /-- The events whose deletion is deferred, the last one first. -/
  endgame : List ℕ
  outstanding : ℕ → Dir → List ℕ
  nextEvent : ℕ
  nextFd : ℕ
  nextOp : ℕ

inductive UdpEvent
  | created (i : ℕ)
  | returned (i : ℕ) (c : UdpCall) (ret : RetCode)
  | called (i : ℕ) (c : Call)
  | freed (i : ℕ)
  | released (i : ℕ)
  /-- An assertion fails, a null pointer is followed, memory is used that has been released, or an
  operation is started for which no packet will arrive. -/
  | fault
deriving DecidableEq, Repr

/-- What an effect of a function on event `i` shows. -/
def shown (i : ℕ) : IoEffect → Option UdpEvent
  | .call c => some (.called i c)
  | .assertFailed => some .fault
  | _ => none

namespace UdpLoop

def init : UdpLoop where
  mem := fun _ ↦ none
  endgame := []
  outstanding := fun _ _ ↦ []
  nextEvent := 0
  nextFd := 3
  nextOp := 0

def fresh (s : UdpLoop) : Fresh := ⟨s.nextFd, s.nextEvent, 0⟩

/-- The memory of an event that the client has not freed. -/
def live (s : UdpLoop) (i : ℕ) : Option Udp := (s.mem i).filter fun u ↦ !u.deleted

/-- `nanoev_event_new`. -/
def eventNew (s : UdpLoop) : UdpLoop :=
  { s with
    mem := Function.update s.mem s.nextEvent (some .udpNew)
    nextEvent := s.nextEvent + 1 }

def call (s : UdpLoop) (i : ℕ) (u : Udp) (c : UdpCall) (sys : Sys) : UdpLoop :=
  let r := runUdp c u s.nextOp sys s.fresh
  { s with
    mem := Function.update s.mem i (some r.1)
    outstanding := Function.update s.outstanding i fun d ↦
      s.outstanding i d ++ if .submit d ∈ r.2.1 then [s.nextOp] else []
    nextFd := s.nextFd + 1
    nextOp := s.nextOp + 1 }

/-- `nanoev_event_free`, that is `udp_free`. -/
def eventFree (s : UdpLoop) (i : ℕ) (u : Udp) : UdpLoop :=
  if u.reading || u.writing then
    { s with
      mem := Function.update s.mem i (some { u.udpFree.1 with deleted := true })
      endgame := i :: s.endgame }
  else { s with mem := Function.update s.mem i none }

/-- The packet of operation `op` arrives, with the result `c` in the context. -/
def packet (s : UdpLoop) (i : ℕ) (d : Dir) (op : ℕ) (c : IoContext) : UdpLoop :=
  let outstanding := Function.update s.outstanding i
    (Function.update (s.outstanding i) d ((s.outstanding i d).erase op))
  match s.mem i with
  | none => { s with outstanding }
  | some u =>
    { s with
      mem := Function.update s.mem i (some (udpProactorCallback (storeUdp u d c) d).1)
      outstanding }

/-- An event on the list has neither `READING` nor `WRITING` set. -/
def idle (s : UdpLoop) (i : ℕ) : Bool := (s.mem i).any fun u ↦ !u.reading && !u.writing

/-- `__process_endgame_proactor(loop, 0)`: `udp_free` releases the events without outstanding
work. -/
def processEndgame (s : UdpLoop) : UdpLoop :=
  { s with
    mem := fun i ↦ if i ∈ s.endgame ∧ s.idle i then none else s.mem i
    endgame := s.endgame.filter fun i ↦ !s.idle i }

inductive Action
  | new
  | call (i : ℕ) (c : UdpCall) (sys : Sys)
  | packet (i : ℕ) (d : Dir) (op : ℕ) (c : IoContext)
  | free (i : ℕ)
  | processEndgame
deriving DecidableEq, Repr

def step (s : UdpLoop) : Action → Option UdpLoop
  | .new => some s.eventNew
  | .call i c sys => (s.live i).map fun u ↦ s.call i u c sys
  | .packet i d op c => if op ∈ s.outstanding i d then some (s.packet i d op c) else none
  | .free i => (s.live i).map (s.eventFree i)
  | .processEndgame => some s.processEndgame

/-- What a call shows. An operation on a socket that has not been associated with the port would not
be heard of again. -/
def callShows (i : ℕ) (c : UdpCall) (r : Udp × List IoEffect × RetCode) : List UdpEvent :=
  r.2.1.filterMap (shown i) ++
    (if r.2.1.any (fun e ↦ e.submitted?.isSome) && r.1.reactorEvents ≠ .evRead then [.fault]
      else []) ++ [.returned i c r.2.2]

def shows (s : UdpLoop) : Action → List UdpEvent
  | .new => [.created s.nextEvent]
  | .call i c sys =>
    match s.mem i with
    | none => []
    | some u => callShows i c (runUdp c u s.nextOp sys s.fresh)
  | .packet i d _ c =>
    match s.mem i with
    -- the source uses what is there now
    | none => [.fault]
    | some u => (udpProactorCallback (storeUdp u d c) d).2.filterMap (shown i)
  | .free i =>
    match s.mem i with
    | none => []
    | some u =>
      if u.reading || u.writing then
        -- `add_endgame_proactor` asserts that the event is not on the list
        (assertEffect !u.deleted).filterMap (shown i) ++ [.freed i]
      else [.freed i, .released i]
  | .processEndgame => (s.endgame.filter s.idle).map .released

end UdpLoop

end Nanoev.Iocp
