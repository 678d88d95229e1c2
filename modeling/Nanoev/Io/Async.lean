import Nanoev.Io.Basic

/-!
# Async events

The functions of `nanoev_async.c` on a reactor backend. `nanoev_async_send` may be called by any
thread; what it does under the lock of the event is one step here.
-/

namespace Nanoev

/-- `struct nanoev_async`, with the number of bytes that the pipe holds. -/
structure Async extends Proactor where
  ctx : IoContext
  onAsync : Option ℕ
  started : Bool
  pipeR : Option Socket
  pipeW : Option ℕ
  pipeBytes : ℕ
  asyncSent : Bool
deriving DecidableEq, Repr

namespace Async

/-- `async_new`. -/
def asyncNew : Async where
  toProactor := .new
  ctx := ⟨0, 0⟩
  onAsync := none
  started := false
  pipeR := none
  pipeW := none
  pipeBytes := 0
  asyncSent := false

/-- `nanoev_async_start`. -/
def nanoevAsyncStart (a : Async) (callback : ℕ) (sys : Sys) (fresh : Fresh) :
    Async × List IoEffect × RetCode :=
  if a.started then (a, [], .accessDenied)
  else
    let r := fresh.fd
    let w := fresh.fd + 1
    match sys.socket with
    | some _ => (a, [], .fail)
    | none =>
      match sys.closeOnExec, sys.nonBlocking with
      | some _, _ => (a, [.opened r, .opened w, .close r, .close w], .fail)
      | none, some _ => (a, [.opened r, .opened w, .close r, .close w], .fail)
      | none, none =>
        let reg := epollPollerModify a.reactorEvents (some ⟨r, .empty⟩) .evRead sys
        match reg.error with
        | some _ => (a, [.opened r, .opened w, .close r, .close w], .fail)
        | none =>
          ({ a with
              reactorEvents := reg.reactorEvents
              pipeR := reg.sock
              pipeW := some w
              onAsync := some callback
              started := true },
            [.opened r, .opened w] ++ assertEffect !a.asyncSent, .success)

/-- `nanoev_async_send`; `written` is whether the byte could be written to the pipe. -/
def nanoevAsyncSend (a : Async) (written : Bool) : Async × RetCode :=
  if a.asyncSent then (a, .success)
  else if a.reading then (a, .accessDenied)
  else if written = false then (a, .fail)
  else ({ a with pipeBytes := a.pipeBytes + 1, asyncSent := true }, .success)

/-- `__async_proactor_callback`. -/
def asyncProactorCallback (a : Async) : Async × List IoEffect :=
  ({ a with asyncSent := false, reading := false },
    if a.asyncSent && decide (a.ctx.status = 0) && !a.deleted then
      match a.onAsync with
      | some op => [.call ⟨op, 0, 0, 0, none⟩]
      | none => []
    else [])

/-- The kernel may return the results for `reactor_cb`: a byte is read if and only if there is
one. -/
def reactorKernel (a : Async) (sys : Sys) : Bool :=
  match sys.io with
  | .done _ => decide (0 < a.pipeBytes)
  | _ => decide (a.pipeBytes = 0)

/-- `reactor_cb`, which always completes the context. -/
def reactorCb (a : Async) (sys : Sys) : Async :=
  match sys.io with
  | .done _ => { a with pipeBytes := a.pipeBytes - 1, ctx := ⟨0, 1⟩ }
  | .wouldBlock => { a with ctx := ⟨Errno.again.1, 0⟩ }
  | .failed e => { a with ctx := ⟨e.1, 0⟩ }

/-- The condition under which `async_free` defers the deletion. -/
def asyncFreeDefers (a : Async) : Bool := a.asyncSent || a.reading

/-- The descriptors that `async_free` closes when it releases the event. -/
def closePipes (a : Async) : List IoEffect :=
  (a.pipeR.map fun k ↦ IoEffect.close k.fd).toList ++ (a.pipeW.map IoEffect.close).toList

end Async

end Nanoev
