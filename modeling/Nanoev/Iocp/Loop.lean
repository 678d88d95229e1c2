import Nanoev.Transition.Run
import Nanoev.Iocp.Outcome
import Mathlib.Logic.Function.Basic

/-!
# A loop on a completion port

`Loop` is the state of a loop with its TCP events in the Windows build: the memory of the events,
the list of deferred deletions, and the operations that the system has taken over and whose packets
have not been handed to `tcp_proactor_callback`. Packets arrive in any order, with any result, and
any action may come between two others: the functions of the library invoke a callback last, so what
the client does inside a callback comes after the step that has led to it. A packet that
`iocp_poller_poll` has fetched counts as outstanding until it is dispatched.

The list of deferred deletions is a list here; that the pass over the linked list does what is done
to it is shown for the other backend.

`calls`, `settled` and `lone` are a record of what has happened. No step depends on it.
-/

namespace Nanoev.Iocp

open Transition

/-- The state of a loop, and the record of what has happened. -/
structure Loop where
  mem : ℕ → Option Tcp
  /-- The events whose deletion is deferred, the last one first. -/
  endgame : List ℕ
  /-- The operations of an event and direction whose packets are outstanding. -/
  outstanding : ℕ → Dir → List ℕ
  nextEvent : ℕ
  nextFd : ℕ
  nextUserdata : ℕ
  nextOp : ℕ
  /-- The events on which the client has called `nanoev_event_free`. -/
  freed : ℕ → Bool
  released : List ℕ
  /-- The callbacks that have been invoked. -/
  calls : List Call
  /-- The operations whose timeout has expired or whose packet has arrived, on an event that had not
  been freed. -/
  settled : List ℕ
  /-- The events that had a timeout expire while no other operation was outstanding. -/
  lone : List ℕ

namespace Loop

def init : Loop where
  mem := fun _ ↦ none
  endgame := []
  outstanding := fun _ _ ↦ []
  nextEvent := 0
  nextFd := 3
  nextUserdata := 0
  nextOp := 0
  freed := fun _ ↦ false
  released := []
  calls := []
  settled := []
  lone := []

def fresh (s : Loop) : Fresh := ⟨s.nextFd, s.nextEvent, s.nextUserdata⟩

/-- `nanoev_event_new`. -/
def eventNew (s : Loop) : Loop :=
  { s with
    mem := Function.update s.mem s.nextEvent (some .tcpNew)
    nextEvent := s.nextEvent + 1 }

/-- `nanoev_event_free`, that is `tcp_free`. -/
def eventFree (s : Loop) (i : ℕ) (t : Tcp) : Loop :=
  let freed := Function.update s.freed i true
  if t.reading || t.writing then
    { s with
      mem := Function.update s.mem i (some { t.tcpFree.1 with deleted := true })
      endgame := i :: s.endgame
      freed }
  else { s with mem := Function.update s.mem i none, released := s.released ++ [i], freed }

def call (s : Loop) (i : ℕ) (t : Tcp) (c : TcpCall) (sys : Sys) : Loop :=
  let (t', effects, _) := run c t s.nextOp sys s.fresh
  { s with
    mem := Function.update s.mem i (some t')
    outstanding := Function.update s.outstanding i fun d ↦
      s.outstanding i d ++ if .submit d ∈ effects then [s.nextOp] else []
    nextFd := s.nextFd + 1
    nextOp := s.nextOp + 1 }

def timeoutFires (s : Loop) (i : ℕ) (t : Tcp) (d : Dir) : Loop :=
  let (t', effects) := Iocp.timeoutFires t d
  { s with
    mem := Function.update s.mem i (some t')
    calls := s.calls ++ effects.filterMap IoEffect.call?
    settled := if s.freed i then s.settled else s.outstanding i d ++ s.settled
    lone := if s.outstanding i (other d) = [] then i :: s.lone else s.lone }

/-- The packet of operation `op` arrives, with the result `c` in the context. -/
def packet (s : Loop) (i : ℕ) (d : Dir) (op : ℕ) (c : IoContext) (sys : Sys) : Loop :=
  let outstanding := Function.update s.outstanding i
    (Function.update (s.outstanding i) d ((s.outstanding i d).erase op))
  match s.mem i with
  -- the memory has been released: the source uses what is there now
  | none => { s with outstanding }
  | some t =>
    let (t', client, effects) := tcpProactorCallback (store t d c) d sys s.fresh
    let mem := Function.update s.mem i (some t')
    { s with
      mem :=
        match client with
        | none => mem
        | some x => Function.update mem s.nextEvent (some x)
      outstanding
      nextEvent := s.nextEvent + 1
      nextUserdata := s.nextUserdata + 1
      calls := s.calls ++ effects.filterMap IoEffect.call?
      settled := if s.freed i then s.settled else op :: s.settled }

/-- An event on the list has neither `READING` nor `WRITING` set. -/
def idle (s : Loop) (i : ℕ) : Bool := (s.mem i).any fun t ↦ !t.reading && !t.writing

/-- `__process_endgame_proactor(loop, 0)`: `tcp_free` releases the events without outstanding
work. -/
def processEndgame (s : Loop) : Loop :=
  { s with
    mem := fun i ↦ if i ∈ s.endgame ∧ s.idle i then none else s.mem i
    endgame := s.endgame.filter fun i ↦ !s.idle i
    released := s.released ++ s.endgame.filter s.idle }

inductive Action
  | new
  | free (i : ℕ)
  | call (i : ℕ) (c : TcpCall) (sys : Sys)
  | timeoutFires (i : ℕ) (d : Dir)
  | packet (i : ℕ) (d : Dir) (op : ℕ) (c : IoContext) (sys : Sys)
  | processEndgame
deriving DecidableEq, Repr

/-- The memory of an event that the client has not freed. -/
def live (s : Loop) (i : ℕ) : Option Tcp := if s.freed i then none else s.mem i

def step (s : Loop) : Action → Option Loop
  | .new => some s.eventNew
  | .free i => (s.live i).map (s.eventFree i)
  | .call i c sys => (s.live i).map fun t ↦ s.call i t c sys
  | .timeoutFires i d =>
    (s.mem i).bind fun t ↦ if (t.timeout d).active then some (s.timeoutFires i t d) else none
  | .packet i d op c sys =>
    if op ∈ s.outstanding i d then some (s.packet i d op c sys) else none
  | .processEndgame => some s.processEndgame

/-- The client does not call `nanoev_tcp_connect` or `nanoev_tcp_listen` on an event in the error
state. -/
def sober (s : Loop) : Action → Bool
  | .call i c _ => !(Tcp.opens c && (s.mem i).any fun t ↦ t.error)
  | _ => true

/-- A call whose overlapped call was accepted returns success. -/
def reported (s : Loop) : Action → Bool
  | .call i c sys =>
    match s.mem i with
    | none => true
    | some t =>
      let r := run c t s.nextOp sys s.fresh
      decide (r.2.2 = .success) || !r.2.1.any fun e ↦ e.submitted?.isSome
  | _ => true

/-- A call with a timeout finds memory for the timer heap. -/
def provided (_ : Loop) : Action → Bool
  | .call _ c sys => timeoutOf c = none || sys.timerNode
  | _ => true

end Loop

end Nanoev.Iocp
