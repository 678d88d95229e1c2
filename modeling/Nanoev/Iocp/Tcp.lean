import Nanoev.Io.Tcp

/-!
# TCP events on a completion port

The functions of `nanoev_tcp.c` in the Windows build, where they differ from the reactor backends.
An operation is started by an overlapped call. When the system accepts the call it takes over the
context of the direction, and a completion packet for it will arrive later; this holds also when the
operation is done at once. `.submit d` stands for a context that the system has taken over.

A timeout cannot take the context back. It invokes the callback and closes the socket, and leaves
the flag of the direction set until the packet arrives. `tcp_proactor_callback` recognizes a packet
that comes too late by the callback that is missing.

The results of the overlapped calls are those of the calls they stand for: `connect` for
`ConnectEx`, `accept` for `AcceptEx`, `io` for `WSASend` and `WSARecv`, where `ERROR_IO_PENDING` is
the result of a call that would block. `epollCtl` is the result of `CreateIoCompletionPort`. What is
asserted of `setsockopt` is left aside, and so is the address buffer of a listener once it is
allocated.
-/

namespace Nanoev.Iocp

/-- `WSAENOBUFS`, which `ENOMEM` stands for in this build. -/
def wsaenobufs : Errno := ⟨10055, by decide⟩

/-- `socket_timeout_error`. -/
def socketTimeoutError : Errno := ⟨10060, by decide⟩

/-- `socket_accept`. A socket is as wide as an address here, so the field shares its bytes with the
address in `buf_read`. -/
def socketAccept : ReadSlot → Option ℕ
  | .bufRead b => if b.buf = 2 ^ 64 - 1 then none else some b.buf
  | .accept _ fd => fd

/-- `register_proactor`, which is `iocp_poller_modify`: the event, the effects, and whether the
socket could be associated with the completion port. -/
def registerProactor (t : Tcp) (sys : Sys) : Tcp × List IoEffect × Bool :=
  let asserts := assertEffect (t.reactorEvents = .empty)
  match t.sock, sys.epollCtl with
  | some _, none => ({ t with reactorEvents := .evRead }, asserts, true)
  | _, _ => (t, asserts, false)

/-- `create_tcp_socket`. -/
def createTcpSocket (t : Tcp) (sys : Sys) (fresh : Fresh) : Tcp × List IoEffect × Option Errno :=
  match sys.socket with
  | some e => (t, [], some e)
  | none => ({ t with sock := some ⟨fresh.fd, .empty⟩ }, [.opened fresh.fd], none)

/-! ## Starting operations -/

/-- `nanoev_tcp_connect`. -/
def nanoevTcpConnect (t : Tcp) (serverAddr : Bool) (timeout : Option Timeval)
    (callback : Option ℕ) (sys : Sys) (fresh : Fresh) : Tcp × List IoEffect × RetCode :=
  if serverAddr = false ∨ callback = none then (t, [], .invalidArg)
  else if timeout.any invalidDelay then (t, [], .invalidArg)
  else if t.sock.isSome then (t, [], .accessDenied)
  else
    match createTcpSocket t sys fresh with
    | (t, opened, some e) => (t.connectError timeout.isSome e.1, opened, .fail)
    | (t, opened, none) =>
      match registerProactor t sys with
      | (t, asserts, false) => (t.connectError timeout.isSome (-1), opened ++ asserts, .fail)
      | (t, asserts, true) =>
        match sys.bind, sys.connect with
        | some e, _ => (t.connectError timeout.isSome e.1, opened ++ asserts, .fail)
        | none, .failed e => (t.connectError timeout.isSome e.1, opened ++ asserts, .fail)
        | none, .done =>
          ({ t with writing := true, onConnect := callback }, opened ++ asserts ++ [.submit .write],
            .success)
        | none, .inProgress =>
          let effects := opened ++ asserts ++ [.submit .write]
          match timeout with
          | none => ({ t with writing := true, onConnect := callback }, effects, .success)
          | some _ =>
            match Tcp.tcpTimeoutAdd t.timeoutWrite .connect sys.timerNode with
            | (timeoutWrite, true) =>
              ({ t with timeoutWrite, writing := true, onConnect := callback }, effects, .success)
            | (timeoutWrite, false) =>
              (Tcp.connectError { t with timeoutWrite } true wsaenobufs.1, effects, .fail)

/-- `nanoev_tcp_listen`. -/
def nanoevTcpListen (t : Tcp) (localAddr : Bool) (sys : Sys) (fresh : Fresh) :
    Tcp × List IoEffect × RetCode :=
  if localAddr = false then (t, [], .invalidArg)
  else if t.sock.isSome then (t, [], .accessDenied)
  else
    match createTcpSocket t sys fresh with
    | (t, opened, some e) => (t.setError e.1, opened, .fail)
    | (t, opened, none) =>
      match registerProactor t sys with
      | (t, asserts, false) => (t.setError (-1), opened ++ asserts, .fail)
      | (t, asserts, true) =>
        match sys.bind, sys.listen with
        | some e, _ => (t.setError e.1, opened ++ asserts, .fail)
        | none, some e => (t.setError e.1, opened ++ asserts, .fail)
        | none, none =>
          -- the buffer for the addresses that `AcceptEx` returns
          if sys.memAlloc then ({ t with listening := true }, opened ++ asserts, .success)
          else (t.setError wsaenobufs.1, opened ++ asserts, .fail)

/-- `nanoev_tcp_accept`. -/
def nanoevTcpAccept (t : Tcp) (timeout : Option Timeval) (callback : Option ℕ)
    (allocUserdata : Bool) (sys : Sys) (fresh : Fresh) : Tcp × List IoEffect × RetCode :=
  if callback = none then (t, [], .invalidArg)
  else if timeout.any invalidDelay then (t, [], .invalidArg)
  else if t.sock = none ∨ t.error ∨ t.deleted ∨ !t.listening ∨ t.reading then
    (t, [], .accessDenied)
  else
    let t := { t with readSlot := .accept allocUserdata none }
    match sys.socket with
    | some e => (t.acceptError timeout.isSome e.1, [], .fail)
    | none =>
      let t := { t with ctxRead := ⟨0, 0⟩ }
      match sys.accept with
      | .failed e =>
        (t.acceptError timeout.isSome e.1, [.opened fresh.fd, .close fresh.fd], .fail)
      | .done =>
        ({ t with
            readSlot := .accept allocUserdata (some fresh.fd)
            reading := true
            onAccept := callback },
          [.opened fresh.fd, .submit .read], .success)
      | .wouldBlock =>
        let t := { t with readSlot := .accept allocUserdata (some fresh.fd) }
        match timeout with
        | none =>
          ({ t with reading := true, onAccept := callback }, [.opened fresh.fd, .submit .read],
            .success)
        | some _ =>
          match Tcp.tcpTimeoutAdd t.timeoutRead .accept sys.timerNode with
          | (timeoutRead, true) =>
            ({ t with timeoutRead, reading := true, onAccept := callback },
              [.opened fresh.fd, .submit .read], .success)
          | (timeoutRead, false) =>
            (Tcp.acceptError { t with timeoutRead } true wsaenobufs.1,
              [.opened fresh.fd, .submit .read, .close fresh.fd], .fail)

/-- `nanoev_tcp_write`. -/
def nanoevTcpWrite (t : Tcp) (b : IoBuf) (timeout : Option Timeval) (callback : Option ℕ)
    (sys : Sys) : Tcp × List IoEffect × RetCode :=
  if b.buf = 0 ∨ b.len = 0 ∨ callback = none then (t, [], .invalidArg)
  else if timeout.any invalidDelay then (t, [], .invalidArg)
  else if t.notReady ∨ t.writing then (t, [], .accessDenied)
  else
    let t := { t with bufWrite := b, ctxWrite := ⟨0, 0⟩ }
    match sys.io with
    | .failed e => (t.setError e.1, [], .fail)
    | .done _ => ({ t with writing := true, onWrite := callback }, [.submit .write], .success)
    | .wouldBlock =>
      match timeout with
      | none => ({ t with writing := true, onWrite := callback }, [.submit .write], .success)
      | some _ =>
        match Tcp.tcpTimeoutAdd t.timeoutWrite .write sys.timerNode with
        | (timeoutWrite, true) =>
          ({ t with timeoutWrite, writing := true, onWrite := callback }, [.submit .write],
            .success)
        | (timeoutWrite, false) =>
          (Tcp.setError { t with timeoutWrite } wsaenobufs.1, [.submit .write], .fail)

/-- `nanoev_tcp_read`. The timeout is armed also when the read is done at once. -/
def nanoevTcpRead (t : Tcp) (b : IoBuf) (timeout : Option Timeval) (callback : Option ℕ)
    (sys : Sys) : Tcp × List IoEffect × RetCode :=
  if b.buf = 0 ∨ b.len = 0 ∨ callback = none then (t, [], .invalidArg)
  else if timeout.any invalidDelay then (t, [], .invalidArg)
  else if t.notReady ∨ t.reading then (t, [], .accessDenied)
  else
    let t := { t with readSlot := .bufRead b, ctxRead := ⟨0, 0⟩ }
    match sys.io with
    | .failed e => (t.setError e.1, [], .fail)
    | .done _ | .wouldBlock =>
      match timeout with
      | none => ({ t with reading := true, onRead := callback }, [.submit .read], .success)
      | some _ =>
        match Tcp.tcpTimeoutAdd t.timeoutRead .read sys.timerNode with
        | (timeoutRead, true) =>
          ({ t with timeoutRead, reading := true, onRead := callback }, [.submit .read], .success)
        | (timeoutRead, false) =>
          (Tcp.setError { t with timeoutRead } wsaenobufs.1, [.submit .read], .fail)

/-- The call of the client, with `op` for the callback. -/
def run (c : TcpCall) (t : Tcp) (op : ℕ) (sys : Sys) (fresh : Fresh) :
    Tcp × List IoEffect × RetCode :=
  match c with
  | .connect serverAddr timeout callback =>
    nanoevTcpConnect t serverAddr timeout (if callback then some op else none) sys fresh
  | .listen localAddr => nanoevTcpListen t localAddr sys fresh
  | .accept timeout callback allocUserdata =>
    nanoevTcpAccept t timeout (if callback then some op else none) allocUserdata sys fresh
  | .write b timeout callback => nanoevTcpWrite t b timeout (if callback then some op else none) sys
  | .read b timeout callback => nanoevTcpRead t b timeout (if callback then some op else none) sys
  | .shutdown how => t.nanoevTcpShutdown how sys
  | .addr present isLocal => t.nanoevTcpAddr present isLocal sys
  | .setOption valid => t.tcpSetOption valid sys

/-- `nanoev_tcp_error`. -/
def nanoevTcpError (t : Tcp) : ℤ := t.errorCode

/-! ## Completions -/

/-- The system stores the result of an operation in the context it has taken over. -/
def store (t : Tcp) (d : Dir) (c : IoContext) : Tcp :=
  match d with
  | .read => { t with ctxRead := c }
  | .write => { t with ctxWrite := c }

def readCompleted (t : Tcp) (status : ℤ) (bytes : ℕ) : Tcp × List IoEffect :=
  if t.reading = false then ({ t with errorCode := socketTimeoutError.1 }, [])
  else
    let t₁ := { t with reading := false, onRead := none, timeoutRead := Tcp.tcpTimeoutDel }
    match t.onRead with
    | none => ({ t₁ with errorCode := socketTimeoutError.1 }, [])
    | some op =>
      (t₁, if t.deleted then [] else [.call ⟨op, status, t.readSlot.buf.buf, bytes, none⟩])

def writeCompleted (t : Tcp) (status : ℤ) (bytes : ℕ) : Tcp × List IoEffect :=
  if t.writing = false then ({ t with errorCode := socketTimeoutError.1 }, [])
  else
    let t₁ := { t with writing := false, onWrite := none, timeoutWrite := Tcp.tcpTimeoutDel }
    match t.onWrite with
    | none => ({ t₁ with errorCode := socketTimeoutError.1 }, [])
    | some op => (t₁, if t.deleted then [] else [.call ⟨op, status, t.bufWrite.buf, bytes, none⟩])

/-- `tcp_alloc_client`: the event for the new connection, or the effects of freeing an event that
could not be associated with the completion port. -/
def tcpAllocClient (userdata : Option ℕ) (socket : Option ℕ) (sys : Sys) :
    Option Tcp × List IoEffect :=
  if sys.memAlloc = false then (none, [])
  else
    let t := { Tcp.tcpNew with userdata, sock := socket.map fun fd ↦ ⟨fd, .empty⟩ }
    match registerProactor t sys with
    | (t, asserts, false) => (none, asserts ++ t.closeTcpSocket.2)
    | (t, asserts, true) => (some { t with connected := true }, asserts)

/-- The part of the accept completion from the allocation of the user data to the call of
`on_accept`: the new event, and the effects. `alloc_userdata` calls no function of the library. -/
def acceptClient (allocUserdata : Bool) (socketAccept : Option ℕ) (status : ℤ) (op : ℕ) (sys : Sys)
    (fresh : Fresh) : Option Tcp × List IoEffect :=
  if status ≠ 0 then
    (none, Tcp.closeAccepted socketAccept ++ [.call ⟨op, status, 0, 0, none⟩])
  else if allocUserdata && !sys.userdata then
    (none, Tcp.closeAccepted socketAccept ++ [.call ⟨op, wsaenobufs.1, 0, 0, none⟩])
  else
    let userdata := if allocUserdata then some fresh.userdata else none
    let allocated := if allocUserdata then [.allocUserdata fresh.userdata] else []
    match tcpAllocClient userdata socketAccept sys with
    | (some client, effects) =>
      (some client, allocated ++ effects ++ [.call ⟨op, 0, 0, 0, some fresh.event⟩])
    | (none, effects) =>
      (none, allocated ++ effects ++ Tcp.closeAccepted socketAccept ++
        (if allocUserdata then [.freeUserdata fresh.userdata] else []) ++
        [.call ⟨op, wsaenobufs.1, 0, 0, none⟩])

def acceptCompleted (t : Tcp) (status : ℤ) (sys : Sys) (fresh : Fresh) :
    Tcp × Option Tcp × List IoEffect :=
  let cleared := if socketAccept t.readSlot = none then t.readSlot else t.readSlot.clearSocket
  if t.reading = false then
    ({ t with readSlot := cleared, errorCode := socketTimeoutError.1 }, none,
      Tcp.closeAccepted (socketAccept t.readSlot))
  else
    let t₁ := { t with reading := false, onAccept := none, timeoutRead := Tcp.tcpTimeoutDel }
    match t.onAccept with
    | none =>
      ({ t₁ with readSlot := cleared, errorCode := socketTimeoutError.1 }, none,
        Tcp.closeAccepted (socketAccept t.readSlot))
    | some op =>
      let t₂ := { t₁ with readSlot := .accept false none }
      if t.deleted then (t₂, none, Tcp.closeAccepted (socketAccept t.readSlot))
      else
        let (client, effects) :=
          acceptClient t.readSlot.allocUserdata (socketAccept t.readSlot) status op sys fresh
        (t₂, client, effects)

def connectCompleted (t : Tcp) (status : ℤ) : Tcp × List IoEffect :=
  if t.writing = false then ({ t with errorCode := socketTimeoutError.1 }, [])
  else
    let t₁ := { t with writing := false, onConnect := none, timeoutWrite := Tcp.tcpTimeoutDel }
    match t.onConnect with
    | none => ({ t₁ with errorCode := socketTimeoutError.1 }, [])
    | some op =>
      if t.deleted then (t₁, [])
      else
        (if status = 0 then { t₁ with connected := true } else t₁,
          [.call ⟨op, status, 0, 0, none⟩])

/-- `tcp_proactor_callback`, with the event of an accepted connection. -/
def tcpProactorCallback (t : Tcp) (d : Dir) (sys : Sys) (fresh : Fresh) :
    Tcp × Option Tcp × List IoEffect :=
  let status := (t.ctx d).status
  let bytes := (t.ctx d).bytes
  let t := if status ≠ 0 then t.setError status else t
  if t.connected then
    match d with
    | .read => let r := readCompleted t status bytes; (r.1, none, r.2)
    | .write => let r := writeCompleted t status bytes; (r.1, none, r.2)
  else if t.listening then acceptCompleted t status sys fresh
  else let r := connectCompleted t status; (r.1, none, r.2)

/-! ## Timeouts -/

/-- `tcp_timeout_read_callback`, for a node that has been taken out of the heap. -/
def tcpTimeoutReadCallback (t : Tcp) : Tcp × List IoEffect :=
  let op := t.timeoutRead.op
  if op ≠ .accept ∧ op ≠ .read then (t, [])
  else
    let t := { t with timeoutRead := { t.timeoutRead with op := .none } }
    if t.reading = false then (t, [])
    else
      let t := t.setError socketTimeoutError.1
      match if op = .accept then t.onAccept else t.onRead with
      | none => (t, [])
      | some o =>
        let t₁ := if op = .accept then { t with onAccept := none } else { t with onRead := none }
        let (t₂, closed) := t₁.closeTcpSocket
        let call : Call :=
          if op = .accept then ⟨o, socketTimeoutError.1, 0, 0, none⟩
          else ⟨o, socketTimeoutError.1, t.readSlot.buf.buf, 0, none⟩
        (t₂, closed ++ if t.deleted then [] else [.call call])

/-- `tcp_timeout_write_callback`, for a node that has been taken out of the heap. -/
def tcpTimeoutWriteCallback (t : Tcp) : Tcp × List IoEffect :=
  let op := t.timeoutWrite.op
  if op ≠ .connect ∧ op ≠ .write then (t, [])
  else
    let t := { t with timeoutWrite := { t.timeoutWrite with op := .none } }
    if t.writing = false then (t, [])
    else
      let t := t.setError socketTimeoutError.1
      match if op = .connect then t.onConnect else t.onWrite with
      | none => (t, [])
      | some o =>
        let t₁ := if op = .connect then { t with onConnect := none } else { t with onWrite := none }
        let (t₂, closed) := t₁.closeTcpSocket
        let call : Call :=
          if op = .connect then ⟨o, socketTimeoutError.1, 0, 0, none⟩
          else ⟨o, socketTimeoutError.1, t.bufWrite.buf, 0, none⟩
        (t₂, closed ++ if t.deleted then [] else [.call call])

/-- `timers_process` has taken the node of a direction out of the heap and calls it. -/
def timeoutFires (t : Tcp) (d : Dir) : Tcp × List IoEffect :=
  match d with
  | .read =>
    tcpTimeoutReadCallback { t with timeoutRead := { t.timeoutRead with active := false } }
  | .write =>
    tcpTimeoutWriteCallback { t with timeoutWrite := { t.timeoutWrite with active := false } }

end Nanoev.Iocp
