import Nanoev.Io.Basic

/-!
# UDP events

The functions of `nanoev_udp.c` on a reactor backend, each as a function on the event it works on.
The socket is registered for reading as soon as it is created, and `reactorCb` does not look at the
flags.
-/

namespace Nanoev

/-- An address, as far as the functions look at it: its family, and which address it is. -/
structure Addr where
  family : ℕ
  addr : ℕ
deriving DecidableEq, Repr

/-- `struct nanoev_udp`, less the address of the last datagram received. -/
structure Udp extends Proactor where
  connected : Bool
  family : ℕ
  sock : Option Socket
  errorCode : ℤ
  ctxRead : IoContext
  ctxWrite : IoContext
  bufRead : IoBuf
  bufWrite : IoBuf
  toAddr : Addr
  writeConnected : Bool
  onWrite : Option ℕ
  onRead : Option ℕ
deriving DecidableEq, Repr

namespace Udp

/-- `udp_new`. -/
def udpNew : Udp where
  toProactor := .new
  connected := false
  family := 0
  sock := none
  errorCode := 0
  ctxRead := ⟨0, 0⟩
  ctxWrite := ⟨0, 0⟩
  bufRead := ⟨0, 0⟩
  bufWrite := ⟨0, 0⟩
  toAddr := ⟨0, 0⟩
  writeConnected := false
  onWrite := none
  onRead := none

/-- `udp->flags |= NANOEV_UDP_FLAG_ERROR; udp->error_code = e`. -/
def setError (u : Udp) (e : ℤ) : Udp := { u with error := true, errorCode := e }

/-- `register_proactor(udp->loop, udp, udp->sock, events)`, with the error it leaves in `errno`. -/
def registerProactor (u : Udp) (events : Mask) (sys : Sys) : Udp × Option Errno :=
  let r := epollPollerModify u.reactorEvents u.sock events sys
  ({ u with reactorEvents := r.reactorEvents, sock := r.sock }, r.error)

/-- `create_udp_socket`, with its error code. A socket that could be opened stays open. -/
def createUdpSocket (u : Udp) (family : ℕ) (sys : Sys) (fresh : Fresh) :
    Udp × List IoEffect × Option ℤ :=
  let u := { u with family }
  match sys.socket with
  | some e => (u, [], some e.1)
  | none =>
    let u := { u with sock := some ⟨fresh.fd, .empty⟩ }
    match sys.closeOnExec, sys.nonBlocking with
    | some e, _ => (u, [.opened fresh.fd], some e.1)
    | none, some e => (u, [.opened fresh.fd], some e.1)
    | none, none =>
      match u.registerProactor .evRead sys with
      | (u, some _) => (u, [.opened fresh.fd], some (-1))
      | (u, none) => (u, [.opened fresh.fd], none)

/-- `create_udp_socket`, if the event has no socket. -/
def openUdpSocket (u : Udp) (family : ℕ) (sys : Sys) (fresh : Fresh) :
    Udp × List IoEffect × Option ℤ :=
  if u.sock = none then u.createUdpSocket family sys fresh else (u, [], none)

/-- `nanoev_udp_read`. -/
def nanoevUdpRead (u : Udp) (b : IoBuf) (callback : Option ℕ) : Udp × List IoEffect × RetCode :=
  if b.buf = 0 ∨ b.len = 0 ∨ callback = none then (u, [], .invalidArg)
  else if u.sock = none ∨ u.error ∨ u.deleted ∨ u.reading then (u, [], .accessDenied)
  else
    ({ u with bufRead := b, ctxRead := ⟨0, 0⟩, reading := true, onRead := callback }, [], .success)

/-- The part of `nanoev_udp_write` from the first attempt to send. -/
def startWrite (u : Udp) (b : IoBuf) (toAddr : Option Addr) (callback : Option ℕ) (sys : Sys) :
    Udp × List IoEffect × RetCode :=
  let u :=
    { u with
      bufWrite := b
      ctxWrite := ⟨0, 0⟩
      writeConnected := toAddr.isNone
      toAddr := toAddr.getD u.toAddr }
  match sys.io with
  | .done n =>
    let u := { u with ctxWrite := ⟨0, n⟩ }
    if sys.submit then
      ({ u with writing := true, onWrite := callback }, [.submit .write], .success)
    else (u.setError Errno.nomem.1, [], .fail)
  | .failed e => (u.setError e.1, [], .fail)
  | .wouldBlock =>
    let asserts := assertEffect !u.reactorEvents.write
    match u.registerProactor u.reactorEvents.orWrite sys with
    | (u, some e) => (u.setError e.1, asserts, .fail)
    | (u, none) => ({ u with writing := true, onWrite := callback }, asserts, .success)

/-- `nanoev_udp_write`. -/
def nanoevUdpWrite (u : Udp) (b : IoBuf) (toAddr : Option Addr) (callback : Option ℕ) (sys : Sys)
    (fresh : Fresh) : Udp × List IoEffect × RetCode :=
  if b.buf = 0 ∨ b.len = 0 ∨ callback = none then (u, [], .invalidArg)
  else if toAddr = none ∧ u.connected = false then (u, [], .invalidArg)
  else if u.error ∨ u.deleted ∨ u.writing then (u, [], .accessDenied)
  else
    match u.openUdpSocket ((toAddr.map Addr.family).getD 0) sys fresh with
    | (u, opened, some e) => (u.setError e, opened, .fail)
    | (u, opened, none) =>
      if toAddr.any fun a ↦ a.family ≠ u.family then (u, opened, .invalidArg)
      else
        let r := u.startWrite b toAddr callback sys
        (r.1, opened ++ r.2.1, r.2.2)

/-- `nanoev_udp_connect`. -/
def nanoevUdpConnect (u : Udp) (addr : Option Addr) (sys : Sys) (fresh : Fresh) :
    Udp × List IoEffect × RetCode :=
  match addr with
  | none => (u, [], .invalidArg)
  | some a =>
    if u.error ∨ u.deleted ∨ u.reading ∨ u.writing then (u, [], .accessDenied)
    else if u.sock.isSome ∧ a.family ≠ u.family then (u, [], .invalidArg)
    else
      match u.openUdpSocket a.family sys fresh with
      | (u, opened, some e) => (u.setError e, opened, .fail)
      | (u, opened, none) =>
        match sys.other with
        | some e => (u.setError e.1, opened, .fail)
        | none => ({ u with connected := true }, opened, .success)

/-- `nanoev_udp_bind`. -/
def nanoevUdpBind (u : Udp) (a : Addr) (sys : Sys) (fresh : Fresh) :
    Udp × List IoEffect × RetCode :=
  if u.sock.isSome ∨ u.error ∨ u.deleted then (u, [], .accessDenied)
  else
    match u.createUdpSocket a.family sys fresh with
    | (u, opened, some e) => (u.setError e, opened, .fail)
    | (u, opened, none) =>
      match sys.bind with
      | some e => (u.setError e.1, opened, .fail)
      | none => (u, opened, .success)

/-- A system call whose failure puts the event into the error state. -/
def systemCall (u : Udp) (refused : Bool) (sys : Sys) : Udp × List IoEffect × RetCode :=
  if refused then (u, [], .accessDenied)
  else
    match sys.other with
    | some e => (u.setError e.1, [], .fail)
    | none => (u, [], .success)

/-- `nanoev_udp_addr`. -/
def nanoevUdpAddr (u : Udp) (addr : Bool) (sys : Sys) : Udp × List IoEffect × RetCode :=
  if addr = false then (u, [], .invalidArg)
  else u.systemCall (u.sock = none || u.error || u.deleted) sys

/-- `udp_set_option`; `valid` is whether the option value and its length are. -/
def udpSetOption (u : Udp) (valid : Bool) (sys : Sys) : Udp × List IoEffect × RetCode :=
  if valid = false then (u, [], .invalidArg) else u.systemCall (u.sock = none || u.deleted) sys

/-! ## Completions and readiness -/

def ctx (u : Udp) : Dir → IoContext
  | .read => u.ctxRead
  | .write => u.ctxWrite

/-- The call of a stored callback, which is asserted to be there. -/
def callAsserted (callback : Option ℕ) (deleted : Bool) (status : ℤ) (buf bytes : ℕ) :
    List IoEffect :=
  if deleted then []
  else
    match callback with
    | some op => [.call ⟨op, status, buf, bytes, none⟩]
    | none => [.assertFailed]

/-- `udp_proactor_callback`. -/
def udpProactorCallback (u : Udp) (d : Dir) (sys : Sys) : Udp × List IoEffect :=
  let status := (u.ctx d).status
  let bytes := (u.ctx d).bytes
  let u := if status ≠ 0 then u.setError status else u
  match d with
  | .read =>
    ({ u with reading := false, onRead := none },
      assertEffect u.reading ++ callAsserted u.onRead u.deleted status u.bufRead.buf bytes)
  | .write =>
    let u₁ :=
      if u.reactorEvents.write then (u.registerProactor u.reactorEvents.andNotWrite sys).1 else u
    ({ u₁ with writing := false, onWrite := none },
      assertEffect u.writing ++ callAsserted u.onWrite u.deleted status u.bufWrite.buf bytes)

/-- The kernel may return the results for `reactor_cb`. -/
def reactorKernel (u : Udp) (d : Dir) (sys : Sys) : Bool :=
  match d with
  | .read => sys.io.fits u.bufRead.len
  | .write => sys.io.sends u.bufWrite.len

/-- `reactor_cb`: the event, and whether the context is completed. -/
def reactorCb (u : Udp) (d : Dir) (sys : Sys) : Udp × Bool :=
  match d, sys.io with
  | .read, .done n => ({ u with ctxRead := ⟨0, n⟩ }, true)
  | .read, .failed e => ({ u with ctxRead := ⟨e.1, 0⟩ }, true)
  | .write, .done n => ({ u with ctxWrite := ⟨0, n⟩ }, true)
  | .write, .failed e => ({ u with ctxWrite := ⟨e.1, 0⟩ }, true)
  | _, .wouldBlock => (u, false)

/-! ## Freeing -/

/-- `udp_free`, less what depends on the flags: the socket is closed. -/
def udpFree (u : Udp) : Udp × List IoEffect :=
  match u.sock with
  | some k => ({ u with sock := none }, [.close k.fd])
  | none => (u, [])

end Udp

/-! ## Calls of the client -/

inductive UdpCall
  | read (b : IoBuf) (callback : Bool)
  | write (b : IoBuf) (toAddr : Option Addr) (callback : Bool)
  | connect (peer : Option Addr)
  | bind (a : Addr)
  | addr (present : Bool)
  | setOption (valid : Bool)
deriving DecidableEq, Repr

namespace UdpCall

/-- The results of the system calls are ones that the kernel may return. -/
def kernel : UdpCall → Sys → Bool
  | write b .., sys => sys.io.sends b.len
  | _, _ => true

/-- The call, with `op` for the callback. -/
def run (c : UdpCall) (u : Udp) (op : ℕ) (sys : Sys) (fresh : Fresh) :
    Udp × List IoEffect × RetCode :=
  match c with
  | read b callback => u.nanoevUdpRead b (if callback then some op else none)
  | write b toAddr callback =>
    u.nanoevUdpWrite b toAddr (if callback then some op else none) sys fresh
  | connect peer => u.nanoevUdpConnect peer sys fresh
  | bind a => u.nanoevUdpBind a sys fresh
  | addr present => u.nanoevUdpAddr present sys
  | setOption valid => u.udpSetOption valid sys

end UdpCall

end Nanoev
