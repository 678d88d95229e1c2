import Nanoev.Misc

/-!
# Proactors, descriptors and the poller's view of them

What TCP, UDP and async events have in common on a reactor backend: the flags and the cached
interest of `nanoev_proactor`, the descriptor with the interest that the epoll instance holds for
it, and `epoll_poller_modify`, which works on both.

The functions that follow take the results of the system calls they make as an argument (`Sys`), and
report what they do outside of the event they work on as a list of effects (`IoEffect`): entries for
the poller's queue, descriptors opened and closed, user callbacks invoked. A function of the source
that works on one event is so a function on that event alone.

Descriptors, events, operations and user data are numbered; a number is not used twice. Two
descriptors that are open at different times are therefore different here even if the kernel would
give them the same number, which is what "closed twice" is about.
-/

namespace Nanoev

/-- A set of the interests `_EV_READ` and `_EV_WRITE`. -/
structure Mask where
  read : Bool
  write : Bool
deriving DecidableEq, Repr

namespace Mask

def empty : Mask := ⟨false, false⟩

/-- `_EV_READ`. -/
def evRead : Mask := ⟨true, false⟩

/-- `events | _EV_READ`. -/
def orRead (m : Mask) : Mask := { m with read := true }

/-- `events | _EV_WRITE`. -/
def orWrite (m : Mask) : Mask := { m with write := true }

/-- `events & ~_EV_WRITE`. -/
def andNotWrite (m : Mask) : Mask := { m with write := false }

end Mask

/-- The two contexts of an event, which are also its two directions. -/
inductive Dir
  | read
  | write
deriving DecidableEq, Repr

def Mask.has (m : Mask) : Dir → Bool
  | .read => m.read
  | .write => m.write

/-- An error number: what `errno` holds after a call has failed. -/
abbrev Errno := { e : ℤ // e ≠ 0 }

namespace Errno

def noent : Errno := ⟨2, by decide⟩

def badf : Errno := ⟨9, by decide⟩

def again : Errno := ⟨11, by decide⟩

def nomem : Errno := ⟨12, by decide⟩

def exist : Errno := ⟨17, by decide⟩

/-- `socket_timeout_error`. -/
def timedout : Errno := ⟨110, by decide⟩

end Errno

/-- An open descriptor, with the interest that the epoll instance holds for it. -/
structure Socket where
  fd : ℕ
  interest : Mask
deriving DecidableEq, Repr

/-- `io_context`. -/
structure IoContext where
  status : ℤ
  bytes : ℕ
deriving DecidableEq, Repr

/-- `io_buf`: a length and an address. -/
structure IoBuf where
  len : ℕ
  buf : ℕ
deriving DecidableEq, Repr

/-! ## System calls -/

/-- The result of a non-blocking read, write, receive or send. -/
inductive IoResult
  | done (n : ℕ)
  | wouldBlock
  | failed (e : Errno)
deriving DecidableEq, Repr

/-- What a read or receive into a buffer of length `len` may return. -/
def IoResult.fits (r : IoResult) (len : ℕ) : Bool :=
  match r with
  | done n => decide (n ≤ len)
  | _ => true

/-- What a write or send of `len` bytes may return: an error or a positive count. -/
def IoResult.sends (r : IoResult) (len : ℕ) : Bool :=
  match r with
  | done n => decide (0 < n) && decide (n ≤ len)
  | _ => true

/-- The result of a non-blocking `connect`. -/
inductive ConnectResult
  | done
  | inProgress
  | failed (e : Errno)
deriving DecidableEq, Repr

/-- The result of a non-blocking `accept`, less the number of the new descriptor. -/
inductive AcceptResult
  | done
  | wouldBlock
  | failed (e : Errno)
deriving DecidableEq, Repr

/-- The results of the system calls and of the allocations that one call of a library function may
make. A call that only succeeds or fails has an `Option Errno`, with `none` for success. -/
structure Sys where
  socket : Option Errno
  closeOnExec : Option Errno
  nonBlocking : Option Errno
  bind : Option Errno
  listen : Option Errno
  connect : ConnectResult
  accept : AcceptResult
  io : IoResult
  /-- What `getsockopt` reports for `SO_ERROR`, or its own error. -/
  soError : ℤ
  /-- `getsockname`, `getpeername`, `setsockopt` or `shutdown`. -/
  other : Option Errno
  /-- `epoll_ctl`, on a descriptor in the right state. -/
  epollCtl : Option Errno
  /-- There is memory for the poller's queue. -/
  submit : Bool
  /-- There is memory for the timer heap. -/
  timerNode : Bool
  /-- `mem_alloc` succeeds. -/
  memAlloc : Bool
  /-- The `alloc_userdata` of the client returns a pointer. -/
  userdata : Bool
deriving DecidableEq, Repr

/-- All calls succeed and would not block; reads and writes transfer `n` bytes. -/
def Sys.ok (n : ℕ) : Sys where
  socket := none
  closeOnExec := none
  nonBlocking := none
  bind := none
  listen := none
  connect := .done
  accept := .done
  io := .done n
  soError := 0
  other := none
  epollCtl := none
  submit := true
  timerNode := true
  memAlloc := true
  userdata := true

/-- The numbers that a call gives to the things it creates. -/
structure Fresh where
  fd : ℕ
  event : ℕ
  userdata : ℕ
deriving DecidableEq, Repr

/-! ## Effects -/

structure Call where
  op : ℕ
  status : ℤ
  buf : ℕ
  bytes : ℕ
  newEvent : Option ℕ
deriving DecidableEq, Repr

/-- What a function does outside of the event it works on. -/
inductive IoEffect
  /-- `submit_fake_io` puts a context of the event into the poller's queue. -/
  | submit (ctx : Dir)
  /-- `socket` or `pipe` has returned a descriptor. -/
  | opened (fd : ℕ)
  /-- `accept` has returned a descriptor. -/
  | accepted (fd : ℕ)
  | close (fd : ℕ)
  | call (c : Call)
  /-- `alloc_userdata` has returned user data for a new connection. -/
  | allocUserdata (u : ℕ)
  /-- `alloc_userdata` is called a second time, to free the user data. -/
  | freeUserdata (u : ℕ)
  | assertFailed
deriving DecidableEq, Repr

namespace IoEffect

def submitted? : IoEffect → Option Dir
  | submit d => some d
  | _ => none

def call? : IoEffect → Option Call
  | call c => some c
  | _ => none

def opened? : IoEffect → Option ℕ
  | opened fd | accepted fd => some fd
  | _ => none

def accepted? : IoEffect → Option ℕ
  | accepted fd => some fd
  | _ => none

def closed? : IoEffect → Option ℕ
  | close fd => some fd
  | _ => none

def allocated? : IoEffect → Option ℕ
  | allocUserdata u => some u
  | _ => none

def freed? : IoEffect → Option ℕ
  | freeUserdata u => some u
  | _ => none

def assertFailed? : IoEffect → Option Unit
  | assertFailed => some ()
  | _ => none

end IoEffect

def assertEffect (holds : Bool) : List IoEffect := if holds then [] else [.assertFailed]

/-! ## Proactors -/

/-- The fields of `nanoev_proactor` that the functions use. -/
structure Proactor where
  writing : Bool
  reading : Bool
  error : Bool
  deleted : Bool
  reactorEvents : Mask
  next : Option ℕ
deriving DecidableEq, Repr

def Proactor.new : Proactor := ⟨false, false, false, false, .empty, none⟩

/-- The flag of a direction, `READING` or `WRITING`. -/
def Proactor.flag (p : Proactor) : Dir → Bool
  | .read => p.reading
  | .write => p.writing

/-- What `epoll_poller_modify` returns and leaves behind. -/
structure Registration where
  error : Option Errno
  reactorEvents : Mask
  sock : Option Socket
deriving DecidableEq, Repr

/-- `epoll_poller_modify`. The operation is chosen from the cached interest; the kernel refuses
`EPOLL_CTL_ADD` on a registered descriptor and `EPOLL_CTL_MOD` or `EPOLL_CTL_DEL` on one that is not
registered. -/
def epollPollerModify (reactorEvents : Mask) (sock : Option Socket) (events : Mask) (sys : Sys) :
    Registration :=
  if reactorEvents = events then ⟨none, reactorEvents, sock⟩
  else
    match sock with
    | none => ⟨some .badf, reactorEvents, none⟩
    | some k =>
      if reactorEvents = .empty ∧ k.interest ≠ .empty then ⟨some .exist, reactorEvents, some k⟩
      else if reactorEvents ≠ .empty ∧ k.interest = .empty then
        ⟨some .noent, reactorEvents, some k⟩
      else
        match sys.epollCtl with
        | some e => ⟨some e, reactorEvents, some k⟩
        | none => ⟨none, events, some { k with interest := events }⟩

end Nanoev
