import Nanoev.Io.Basic

/-!
# TCP events

The functions of `nanoev_tcp.c` on a reactor backend, each as a function on the event it works on.

Starting an operation sets the flag of its direction and stores the callback; the meaning of a later
completion is derived again from the flags, in `tcpProactorCallback`. A completion comes from the
poller's queue (the operation was done at once), from `reactorCb` (the descriptor became ready) or
from a timeout.

The callback of an operation is represented by the number of the start call it was passed to. It is
the last thing a function does when it is invoked, so the functions end there.
-/

namespace Nanoev

/-- `nanoev_tcp_timeout_op`. -/
inductive TcpTimeoutOp
  | none
  | connect
  | accept
  | read
  | write
deriving DecidableEq, Repr

/-- `nanoev_tcp_timeout`: whether the node is in the timer heap, and the operation it is for. -/
structure TcpTimeout where
  active : Bool
  op : TcpTimeoutOp
deriving DecidableEq, Repr

/-- The part of the union that `buf_read` shares with `alloc_userdata` and `socket_accept`. -/
inductive ReadSlot
  | bufRead (b : IoBuf)
  | accept (allocUserdata : Bool) (socketAccept : Option ℕ)
deriving DecidableEq, Repr

namespace ReadSlot

/-- `socket_accept`. It shares its bytes with the low half of the address in `buf_read`. -/
def socketAccept : ReadSlot → Option ℕ
  | bufRead b => if b.buf % 2 ^ 32 = 2 ^ 32 - 1 then none else some (b.buf % 2 ^ 32)
  | accept _ fd => fd

/-- `alloc_userdata`, which shares its bytes with the length in `buf_read`. -/
def allocUserdata : ReadSlot → Bool
  | bufRead b => b.len ≠ 0
  | accept alloc _ => alloc

/-- `socket_accept = INVALID_SOCKET`. -/
def clearSocket : ReadSlot → ReadSlot
  | bufRead b => accept (b.len ≠ 0) none
  | accept alloc _ => accept alloc none

/-- `buf_read`; over the accept fields it holds no buffer that was passed to a read. -/
def buf : ReadSlot → IoBuf
  | bufRead b => b
  | accept _ _ => ⟨0, 0⟩

end ReadSlot

/-- `struct nanoev_tcp`, less the address family and the address buffer of the other backend. -/
structure Tcp extends Proactor where
  connected : Bool
  listening : Bool
  /-- The user data that `alloc_userdata` has provided, for an accepted connection. -/
  userdata : Option ℕ
  sock : Option Socket
  errorCode : ℤ
  ctxRead : IoContext
  ctxWrite : IoContext
  readSlot : ReadSlot
  bufWrite : IoBuf
  timeoutRead : TcpTimeout
  timeoutWrite : TcpTimeout
  onWrite : Option ℕ
  onRead : Option ℕ
  onConnect : Option ℕ
  onAccept : Option ℕ
deriving DecidableEq, Repr

namespace Tcp

/-- `tcp_new`. -/
def tcpNew : Tcp where
  toProactor := .new
  connected := false
  listening := false
  userdata := none
  sock := none
  errorCode := 0
  ctxRead := ⟨0, 0⟩
  ctxWrite := ⟨0, 0⟩
  readSlot := .bufRead ⟨0, 0⟩
  bufWrite := ⟨0, 0⟩
  timeoutRead := ⟨false, .none⟩
  timeoutWrite := ⟨false, .none⟩
  onWrite := none
  onRead := none
  onConnect := none
  onAccept := none

/-- `tcp->flags |= NANOEV_TCP_FLAG_ERROR; tcp->error_code = e`. -/
def setError (t : Tcp) (e : ℤ) : Tcp := { t with error := true, errorCode := e }

/-- `register_proactor(tcp->loop, tcp, tcp->sock, events)`, with the error it leaves in `errno`. -/
def registerProactor (t : Tcp) (events : Mask) (sys : Sys) : Tcp × Option Errno :=
  let r := epollPollerModify t.reactorEvents t.sock events sys
  ({ t with reactorEvents := r.reactorEvents, sock := r.sock }, r.error)

/-- `close_tcp_socket`, if the socket is open. -/
def closeTcpSocket (t : Tcp) : Tcp × List IoEffect :=
  match t.sock with
  | some k => ({ t with sock := none }, [.close k.fd])
  | none => (t, [])

/-- `tcp_timeout_add`; `mem` is whether there is memory for the timer heap. -/
def tcpTimeoutAdd (timeout : TcpTimeout) (op : TcpTimeoutOp) (mem : Bool) : TcpTimeout × Bool :=
  if timeout.active then ({ timeout with op := .none }, false)
  else if mem then (⟨true, op⟩, true)
  else (⟨false, .none⟩, false)

/-- `tcp_timeout_del`. -/
def tcpTimeoutDel : TcpTimeout := ⟨false, .none⟩

/-- `create_tcp_socket`, with its error code. A socket that could be opened stays open. -/
def createTcpSocket (t : Tcp) (sys : Sys) (fresh : Fresh) :
    Tcp × List IoEffect × Option Errno :=
  match sys.socket with
  | some e => (t, [], some e)
  | none =>
    let t := { t with sock := some ⟨fresh.fd, .empty⟩ }
    match sys.closeOnExec, sys.nonBlocking with
    | some e, _ => (t, [.opened fresh.fd], some e)
    | none, some e => (t, [.opened fresh.fd], some e)
    | none, none => (t, [.opened fresh.fd], none)

/-! ## Starting operations -/

/-- `ERROR_EXIT` of `nanoev_tcp_connect`; `delTimeout` is `timeout && connect_pending`. -/
def connectError (t : Tcp) (delTimeout : Bool) (e : ℤ) : Tcp :=
  { t with
    timeoutWrite := if delTimeout then tcpTimeoutDel else t.timeoutWrite
    errorCode := e
    error := true }

/-- `nanoev_tcp_connect`. -/
def nanoevTcpConnect (t : Tcp) (serverAddr : Bool) (timeout : Option Timeval)
    (callback : Option ℕ) (sys : Sys) (fresh : Fresh) : Tcp × List IoEffect × RetCode :=
  if serverAddr = false ∨ callback = none then (t, [], .invalidArg)
  else if timeout.any invalidDelay then (t, [], .invalidArg)
  else if t.sock.isSome then (t, [], .accessDenied)
  else
    match t.createTcpSocket sys fresh with
    | (t, opened, some e) => (t.connectError timeout.isSome e.1, opened, .fail)
    | (t, opened, none) =>
      match sys.connect with
      | .done =>
        let t := { t with ctxWrite := ⟨0, 0⟩ }
        if sys.submit then
          ({ t with writing := true, onConnect := callback }, opened ++ [.submit .write], .success)
        else (t.connectError false Errno.nomem.1, opened, .fail)
      | .failed e => (t.connectError timeout.isSome e.1, opened, .fail)
      | .inProgress =>
        let effects := opened ++ assertEffect !t.reactorEvents.write
        match t.registerProactor t.reactorEvents.orWrite sys with
        | (t, some e) => (t.connectError timeout.isSome e.1, effects, .fail)
        | (t, none) =>
          match timeout with
          | none => ({ t with writing := true, onConnect := callback }, effects, .success)
          | some _ =>
            match tcpTimeoutAdd t.timeoutWrite .connect sys.timerNode with
            | (timeoutWrite, true) =>
              ({ t with timeoutWrite, writing := true, onConnect := callback }, effects, .success)
            | (timeoutWrite, false) =>
              (connectError { t with timeoutWrite } true Errno.nomem.1, effects, .fail)

/-- `nanoev_tcp_listen`. -/
def nanoevTcpListen (t : Tcp) (localAddr : Bool) (sys : Sys) (fresh : Fresh) :
    Tcp × List IoEffect × RetCode :=
  if localAddr = false then (t, [], .invalidArg)
  else if t.sock.isSome then (t, [], .accessDenied)
  else
    match t.createTcpSocket sys fresh with
    | (t, opened, some e) => (t.setError e.1, opened, .fail)
    | (t, opened, none) =>
      match t.registerProactor .evRead sys with
      | (t, some _) => (t.setError (-1), opened, .fail)
      | (t, none) =>
        match sys.bind, sys.listen with
        | some e, _ => (t.setError e.1, opened, .fail)
        | none, some e => (t.setError e.1, opened, .fail)
        | none, none => ({ t with listening := true }, opened, .success)

/-- `ERROR_EXIT` of `nanoev_tcp_accept`; `delTimeout` is `timeout && accept_pending`. -/
def acceptError (t : Tcp) (delTimeout : Bool) (e : ℤ) : Tcp :=
  { t with
    timeoutRead := if delTimeout then tcpTimeoutDel else t.timeoutRead
    errorCode := e
    error := true }

/-- `nanoev_tcp_accept`; `allocUserdata` is whether such a function is passed. -/
def nanoevTcpAccept (t : Tcp) (timeout : Option Timeval) (callback : Option ℕ)
    (allocUserdata : Bool) (sys : Sys) (fresh : Fresh) : Tcp × List IoEffect × RetCode :=
  if callback = none then (t, [], .invalidArg)
  else if timeout.any invalidDelay then (t, [], .invalidArg)
  else if t.sock = none ∨ t.error ∨ t.deleted ∨ !t.listening ∨ t.reading then
    (t, [], .accessDenied)
  else
    let t := { t with readSlot := .accept allocUserdata none }
    match sys.accept with
    | .done =>
      match sys.closeOnExec with
      | some e =>
        (t.acceptError timeout.isSome e.1, [.accepted fresh.fd, .close fresh.fd], .fail)
      | none =>
        let t := { t with ctxRead := ⟨0, fresh.fd⟩ }
        if sys.submit then
          ({ t with
              readSlot := .accept allocUserdata (some fresh.fd)
              reading := true
              onAccept := callback },
            [.accepted fresh.fd, .submit .read], .success)
        else
          (t.acceptError timeout.isSome Errno.nomem.1, [.accepted fresh.fd, .close fresh.fd],
            .fail)
    | .failed e => (t.acceptError timeout.isSome e.1, [], .fail)
    | .wouldBlock =>
      match timeout with
      | none => ({ t with reading := true, onAccept := callback }, [], .success)
      | some _ =>
        match tcpTimeoutAdd t.timeoutRead .accept sys.timerNode with
        | (timeoutRead, true) =>
          ({ t with timeoutRead, reading := true, onAccept := callback }, [], .success)
        | (timeoutRead, false) =>
          (acceptError { t with timeoutRead } true Errno.nomem.1, [], .fail)

/-- The state in which `nanoev_tcp_read` and `nanoev_tcp_write` refuse to start. -/
def notReady (t : Tcp) : Bool := t.sock = none || t.error || t.deleted || !t.connected

/-- `nanoev_tcp_write`. -/
def nanoevTcpWrite (t : Tcp) (b : IoBuf) (timeout : Option Timeval) (callback : Option ℕ)
    (sys : Sys) : Tcp × List IoEffect × RetCode :=
  if b.buf = 0 ∨ b.len = 0 ∨ callback = none then (t, [], .invalidArg)
  else if timeout.any invalidDelay then (t, [], .invalidArg)
  else if t.notReady ∨ t.writing then (t, [], .accessDenied)
  else
    let t := { t with bufWrite := b, ctxWrite := ⟨0, 0⟩ }
    match sys.io with
    | .done n =>
      let t := { t with ctxWrite := ⟨0, n⟩ }
      if sys.submit then
        ({ t with writing := true, onWrite := callback }, [.submit .write], .success)
      else (t.setError Errno.nomem.1, [], .fail)
    | .failed e => (t.setError e.1, [], .fail)
    | .wouldBlock =>
      let asserts := assertEffect !t.reactorEvents.write
      match t.registerProactor t.reactorEvents.orWrite sys with
      | (t, some e) => (t.setError e.1, asserts, .fail)
      | (t, none) =>
        match timeout with
        | none => ({ t with writing := true, onWrite := callback }, asserts, .success)
        | some _ =>
          match tcpTimeoutAdd t.timeoutWrite .write sys.timerNode with
          | (timeoutWrite, true) =>
            ({ t with timeoutWrite, writing := true, onWrite := callback }, asserts, .success)
          | (timeoutWrite, false) =>
            (setError { t with timeoutWrite } Errno.nomem.1, asserts, .fail)

/-- `nanoev_tcp_read`. -/
def nanoevTcpRead (t : Tcp) (b : IoBuf) (timeout : Option Timeval) (callback : Option ℕ)
    (sys : Sys) : Tcp × List IoEffect × RetCode :=
  if b.buf = 0 ∨ b.len = 0 ∨ callback = none then (t, [], .invalidArg)
  else if timeout.any invalidDelay then (t, [], .invalidArg)
  else if t.notReady ∨ t.reading then (t, [], .accessDenied)
  else
    let t := { t with readSlot := .bufRead b, ctxRead := ⟨0, 0⟩ }
    match timeout with
    | none => ({ t with reading := true, onRead := callback }, [], .success)
    | some _ =>
      match tcpTimeoutAdd t.timeoutRead .read sys.timerNode with
      | (timeoutRead, true) =>
        ({ t with timeoutRead, reading := true, onRead := callback }, [], .success)
      | (timeoutRead, false) => (setError { t with timeoutRead } Errno.nomem.1, [], .fail)

/-- A system call whose failure puts the event into the error state. -/
def systemCall (t : Tcp) (refused : Bool) (sys : Sys) : Tcp × List IoEffect × RetCode :=
  if refused then (t, [], .accessDenied)
  else
    match sys.other with
    | some e => (t.setError e.1, [], .fail)
    | none => (t, [], .success)

/-- `nanoev_tcp_shutdown`; `how` is whether that argument is one of the three directions. -/
def nanoevTcpShutdown (t : Tcp) (how : Bool) (sys : Sys) : Tcp × List IoEffect × RetCode :=
  if how = false then (t, [], .invalidArg) else t.systemCall t.notReady sys

/-- `nanoev_tcp_addr`. -/
def nanoevTcpAddr (t : Tcp) (addr isLocal : Bool) (sys : Sys) : Tcp × List IoEffect × RetCode :=
  if addr = false then (t, [], .invalidArg)
  else
    t.systemCall (t.sock = none || t.error || t.deleted ||
      (!t.connected && (!t.listening || !isLocal))) sys

/-- `tcp_set_option`; `valid` is whether the option value and its length are. -/
def tcpSetOption (t : Tcp) (valid : Bool) (sys : Sys) : Tcp × List IoEffect × RetCode :=
  if valid = false then (t, [], .invalidArg) else t.systemCall (t.sock = none || t.deleted) sys

/-! ## Completions -/

def readCompleted (t : Tcp) (status : ℤ) (bytes : ℕ) : Tcp × List IoEffect :=
  if t.reading = false then ({ t with errorCode := Errno.timedout.1 }, [])
  else
    let t₁ := { t with reading := false, onRead := none, timeoutRead := tcpTimeoutDel }
    match t.onRead with
    | none => ({ t₁ with errorCode := Errno.timedout.1 }, [])
    | some op =>
      (t₁, if t.deleted then [] else [.call ⟨op, status, t.readSlot.buf.buf, bytes, none⟩])

def writeCompleted (t : Tcp) (status : ℤ) (bytes : ℕ) : Tcp × List IoEffect :=
  if t.writing = false then ({ t with errorCode := Errno.timedout.1 }, [])
  else
    let t₁ := { t with writing := false, onWrite := none, timeoutWrite := tcpTimeoutDel }
    match t.onWrite with
    | none => ({ t₁ with errorCode := Errno.timedout.1 }, [])
    | some op => (t₁, if t.deleted then [] else [.call ⟨op, status, t.bufWrite.buf, bytes, none⟩])

/-- `tcp_alloc_client`: the event for the new connection, or the effects of freeing a half-built
event, whose `tcp_free` closes the descriptor. -/
def tcpAllocClient (userdata : Option ℕ) (socket : Option ℕ) (sys : Sys) :
    Option Tcp × List IoEffect :=
  if sys.memAlloc = false then (none, [])
  else
    let t := { tcpNew with userdata, sock := socket.map fun fd ↦ ⟨fd, .empty⟩ }
    match socket, sys.nonBlocking, sys.closeOnExec with
    -- `set_non_blocking` fails on `INVALID_SOCKET`
    | none, _, _ => (none, t.closeTcpSocket.2)
    | some _, some _, _ => (none, t.closeTcpSocket.2)
    | some _, none, some _ => (none, t.closeTcpSocket.2)
    | some _, none, none =>
      match t.registerProactor .evRead sys with
      | (t, some _) => (none, t.closeTcpSocket.2)
      | (t, none) => (some { t with connected := true }, [])

/-- `close_socket(socket_accept)`, if there is one. -/
def closeAccepted : Option ℕ → List IoEffect
  | some fd => [.close fd]
  | none => []

/-- The part of the accept completion from the allocation of the user data to the call of
`on_accept`: the new event, and the effects. `alloc_userdata` is taken as an allocator, which calls
no function of the library. -/
def acceptClient (allocUserdata : Bool) (socketAccept : Option ℕ) (status : ℤ) (op : ℕ) (sys : Sys)
    (fresh : Fresh) : Option Tcp × List IoEffect :=
  if status ≠ 0 then
    (none, closeAccepted socketAccept ++ [.call ⟨op, status, 0, 0, none⟩])
  else if allocUserdata && !sys.userdata then
    (none, closeAccepted socketAccept ++ [.call ⟨op, Errno.nomem.1, 0, 0, none⟩])
  else
    let userdata := if allocUserdata then some fresh.userdata else none
    let allocated := if allocUserdata then [.allocUserdata fresh.userdata] else []
    match tcpAllocClient userdata socketAccept sys with
    | (some client, effects) =>
      (some client, allocated ++ effects ++ [.call ⟨op, 0, 0, 0, some fresh.event⟩])
    | (none, effects) =>
      (none, allocated ++ effects ++ closeAccepted socketAccept ++
        (if allocUserdata then [.freeUserdata fresh.userdata] else []) ++
        [.call ⟨op, Errno.nomem.1, 0, 0, none⟩])

def acceptCompleted (t : Tcp) (status : ℤ) (sys : Sys) (fresh : Fresh) :
    Tcp × Option Tcp × List IoEffect :=
  if t.reading = false then
    ({ t with
        readSlot := if t.readSlot.socketAccept = none then t.readSlot else t.readSlot.clearSocket
        errorCode := Errno.timedout.1 },
      none, closeAccepted t.readSlot.socketAccept)
  else
    let t₁ := { t with reading := false, onAccept := none, timeoutRead := tcpTimeoutDel }
    match t.onAccept with
    | none =>
      ({ t₁ with
          readSlot := if t.readSlot.socketAccept = none then t.readSlot else t.readSlot.clearSocket
          errorCode := Errno.timedout.1 },
        none, closeAccepted t.readSlot.socketAccept)
    | some op =>
      let t₂ := { t₁ with readSlot := .accept false none }
      if t.deleted then (t₂, none, closeAccepted t.readSlot.socketAccept)
      else
        let (client, effects) :=
          acceptClient t.readSlot.allocUserdata t.readSlot.socketAccept status op sys fresh
        (t₂, client, effects)

def connectCompleted (t : Tcp) (status : ℤ) (sys : Sys) : Tcp × List IoEffect :=
  if t.writing = false then ({ t with errorCode := Errno.timedout.1 }, [])
  else
    let t₁ := { t with writing := false, onConnect := none, timeoutWrite := tcpTimeoutDel }
    match t.onConnect with
    | none => ({ t₁ with errorCode := Errno.timedout.1 }, [])
    | some op =>
      if t.deleted then (t₁, [])
      else
        let t₂ :=
          if status = 0 then
            let t' := { t₁ with connected := true }
            (t'.registerProactor t'.reactorEvents.orRead sys).1
          else t₁
        (t₂, [.call ⟨op, status, 0, 0, none⟩])

/-- `tcp->reactor_events & _EV_WRITE`: the interest in writing is dropped. -/
def dropWriteInterest (t : Tcp) (sys : Sys) : Tcp :=
  if t.reactorEvents.write then (t.registerProactor t.reactorEvents.andNotWrite sys).1 else t

def ctx (t : Tcp) : Dir → IoContext
  | .read => t.ctxRead
  | .write => t.ctxWrite

/-- The first part of `tcp_proactor_callback`: the interest in writing is dropped when a write or
connect is completed, and an error is noted. -/
def noteStatus (t : Tcp) (d : Dir) (sys : Sys) : Tcp :=
  let t₁ := if d = .write then t.dropWriteInterest sys else t
  if (t.ctx d).status ≠ 0 then t₁.setError (t.ctx d).status else t₁

/-- `tcp_proactor_callback`, with the event of an accepted connection. -/
def tcpProactorCallback (t : Tcp) (d : Dir) (sys : Sys) (fresh : Fresh) :
    Tcp × Option Tcp × List IoEffect :=
  let status := (t.ctx d).status
  let bytes := (t.ctx d).bytes
  let t := t.noteStatus d sys
  if t.connected then
    match d with
    | .read => let r := t.readCompleted status bytes; (r.1, none, r.2)
    | .write => let r := t.writeCompleted status bytes; (r.1, none, r.2)
  else if t.listening then t.acceptCompleted status sys fresh
  else let r := t.connectCompleted status sys; (r.1, none, r.2)

/-! ## Timeouts -/

def timeout (t : Tcp) : Dir → TcpTimeout
  | .read => t.timeoutRead
  | .write => t.timeoutWrite

/-- `tcp_timeout_read_callback`, for a node that has been taken out of the heap. -/
def tcpTimeoutReadCallback (t : Tcp) : Tcp × List IoEffect :=
  let op := t.timeoutRead.op
  if op ≠ .accept ∧ op ≠ .read then (t, [])
  else
    let t := { t with timeoutRead := { t.timeoutRead with op := .none } }
    if t.reading = false then (t, [])
    else
      let t := t.setError Errno.timedout.1
      let callback := if op = .accept then t.onAccept else t.onRead
      match callback with
      | none => (t, [])
      | some o =>
        let t₁ :=
          if op = .accept then { t with onAccept := none, reading := false }
          else { t with onRead := none, reading := false }
        let (t₂, closed) := t₁.closeTcpSocket
        let call : Call :=
          if op = .accept then ⟨o, Errno.timedout.1, 0, 0, none⟩
          else ⟨o, Errno.timedout.1, t.readSlot.buf.buf, 0, none⟩
        (t₂, closed ++ if t.deleted then [] else [.call call])

/-- `tcp_timeout_write_callback`, for a node that has been taken out of the heap. -/
def tcpTimeoutWriteCallback (t : Tcp) (sys : Sys) : Tcp × List IoEffect :=
  let op := t.timeoutWrite.op
  if op ≠ .connect ∧ op ≠ .write then (t, [])
  else
    let t := { t with timeoutWrite := { t.timeoutWrite with op := .none } }
    if t.writing = false then (t, [])
    else
      let t := t.setError Errno.timedout.1
      let callback := if op = .connect then t.onConnect else t.onWrite
      match callback with
      | none => (t, [])
      | some o =>
        let t₁ := if op = .connect then { t with onConnect := none } else { t with onWrite := none }
        let (t₂, closed) := closeTcpSocket { t₁.dropWriteInterest sys with writing := false }
        let call : Call :=
          if op = .connect then ⟨o, Errno.timedout.1, 0, 0, none⟩
          else ⟨o, Errno.timedout.1, t.bufWrite.buf, 0, none⟩
        (t₂, closed ++ if t.deleted then [] else [.call call])

/-- `timers_process` has taken the node of a direction out of the heap and calls it. -/
def timeoutFires (t : Tcp) (d : Dir) (sys : Sys) : Tcp × List IoEffect :=
  match d with
  | .read =>
    tcpTimeoutReadCallback { t with timeoutRead := { t.timeoutRead with active := false } }
  | .write =>
    tcpTimeoutWriteCallback { t with timeoutWrite := { t.timeoutWrite with active := false } } sys

/-! ## Readiness -/

/-- `reactor_cb`, for `_EV_READ`: the event, the context that is completed if any, and the
effects. -/
def reactorCbRead (t : Tcp) (sys : Sys) (fresh : Fresh) : Tcp × Bool × List IoEffect :=
  if t.reading = false then (t, false, [])
  else if t.connected then
    match sys.io with
    | .done n => ({ t with ctxRead := ⟨0, n⟩ }, true, [])
    | .wouldBlock => (t, false, [])
    | .failed e => ({ t with ctxRead := ⟨e.1, 0⟩ }, true, [])
  else
    match sys.accept with
    | .done =>
      match sys.closeOnExec with
      | some e =>
        ({ t with ctxRead := ⟨e.1, 0⟩, readSlot := t.readSlot.clearSocket }, true,
          [.accepted fresh.fd, .close fresh.fd])
      | none =>
        ({ t with
            ctxRead := ⟨0, 0⟩
            readSlot := .accept t.readSlot.allocUserdata (some fresh.fd) },
          true, [.accepted fresh.fd])
    | .wouldBlock => (t, false, [])
    | .failed e =>
      ({ t with ctxRead := ⟨e.1, 0⟩, readSlot := t.readSlot.clearSocket }, true, [])

/-- `reactor_cb`, for `_EV_WRITE`. -/
def reactorCbWrite (t : Tcp) (sys : Sys) : Tcp × Bool × List IoEffect :=
  if t.writing = false then (t, false, [])
  else if t.connected then
    match sys.io with
    | .done n => ({ t with ctxWrite := ⟨0, n⟩ }, true, [])
    | .wouldBlock => (t, false, [])
    | .failed e => ({ t with ctxWrite := ⟨e.1, 0⟩ }, true, [])
  else ({ t with ctxWrite := ⟨sys.soError, 0⟩ }, true, [])

/-- The kernel may return the results for `reactor_cb`. -/
def reactorKernel (t : Tcp) (d : Dir) (sys : Sys) : Bool :=
  match d with
  | .read => sys.io.fits t.readSlot.buf.len
  | .write => sys.io.sends t.bufWrite.len

/-- `reactor_cb`. -/
def reactorCb (t : Tcp) (d : Dir) (sys : Sys) (fresh : Fresh) : Tcp × Bool × List IoEffect :=
  match d with
  | .read => t.reactorCbRead sys fresh
  | .write => t.reactorCbWrite sys

/-! ## Freeing -/

/-- `tcp_free`, less what depends on the flags: the timeouts are deleted and the socket is
closed. -/
def tcpFree (t : Tcp) : Tcp × List IoEffect :=
  closeTcpSocket { t with timeoutRead := tcpTimeoutDel, timeoutWrite := tcpTimeoutDel }

end Tcp

/-! ## Calls of the client -/

inductive OpKind
  | connect
  | accept
  | read
  | write
deriving DecidableEq, Repr

def OpKind.dir : OpKind → Dir
  | connect | write => .write
  | accept | read => .read

/-- A call on a TCP event with its arguments; `callback` is whether a callback is passed. -/
inductive TcpCall
  | connect (serverAddr : Bool) (timeout : Option Timeval) (callback : Bool)
  | listen (localAddr : Bool)
  | accept (timeout : Option Timeval) (callback allocUserdata : Bool)
  | write (b : IoBuf) (timeout : Option Timeval) (callback : Bool)
  | read (b : IoBuf) (timeout : Option Timeval) (callback : Bool)
  | shutdown (how : Bool)
  | addr (present isLocal : Bool)
  | setOption (valid : Bool)
deriving DecidableEq, Repr

namespace TcpCall

/-- The operation that the call starts, with its buffer. -/
def op? : TcpCall → Option (OpKind × IoBuf)
  | connect .. => some (.connect, ⟨0, 0⟩)
  | accept .. => some (.accept, ⟨0, 0⟩)
  | write b .. => some (.write, b)
  | read b .. => some (.read, b)
  | _ => none

/-- The results of the system calls are ones that the kernel may return. -/
def kernel : TcpCall → Sys → Bool
  | write b .., sys => sys.io.sends b.len
  | _, _ => true

/-- The call, with `op` for the callback. -/
def run (c : TcpCall) (t : Tcp) (op : ℕ) (sys : Sys) (fresh : Fresh) :
    Tcp × List IoEffect × RetCode :=
  match c with
  | connect serverAddr timeout callback =>
    t.nanoevTcpConnect serverAddr timeout (if callback then some op else none) sys fresh
  | listen localAddr => t.nanoevTcpListen localAddr sys fresh
  | accept timeout callback allocUserdata =>
    t.nanoevTcpAccept timeout (if callback then some op else none) allocUserdata sys fresh
  | write b timeout callback => t.nanoevTcpWrite b timeout (if callback then some op else none) sys
  | read b timeout callback => t.nanoevTcpRead b timeout (if callback then some op else none) sys
  | shutdown how => t.nanoevTcpShutdown how sys
  | addr present isLocal => t.nanoevTcpAddr present isLocal sys
  | setOption valid => t.tcpSetOption valid sys

end TcpCall

end Nanoev
