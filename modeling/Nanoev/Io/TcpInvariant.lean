import Nanoev.Io.TcpOutcome
import Mathlib.Logic.Function.Basic
import Mathlib.Data.List.Count

/-!
# A TCP event by itself

A TCP event sees of the loop only what is done to it: the calls of the client, its timeouts, the
readiness of its socket, the completions that are delivered to it. `TcpStep` is the event as a
machine of its own, together with the numbers of its completions that are on the way, in the queue
of the poller and in the batch.

The two directions of an event are alike. A `Side` is what one of them consists of, and
`Side.Ok` is the invariant of a direction: its flag is set exactly when a callback is stored, and
that callback is the one for the mode of the event; at most one completion is on the way, and only
while the flag is set; and the timeout is armed only for the pending operation, and not when its
completion is in the queue.

The invariant of the event, `TcpView.Ok`, is kept by every step of a client that does not open a
socket on an event in the error state.
-/

namespace Nanoev

/-! ## One direction -/

/-- One direction of a TCP event: reading and accepting, or writing and connecting. -/
structure Side where
  flag : Bool
  /-- `on_read` or `on_write`. -/
  onIo : Option ℕ
  /-- `on_accept` or `on_connect`. -/
  onConn : Option ℕ
  connected : Bool
  /-- An accept or connect is possible: the event listens, or does not listen. -/
  mayConn : Bool
  timeout : TcpTimeout
  ctx : IoContext
  buf : IoBuf

def Tcp.side (t : Tcp) : Dir → Side
  | .read => ⟨t.reading, t.onRead, t.onAccept, t.connected, t.listening, t.timeoutRead, t.ctxRead,
      t.readSlot.buf⟩
  | .write => ⟨t.writing, t.onWrite, t.onConnect, t.connected, !t.listening, t.timeoutWrite,
      t.ctxWrite, t.bufWrite⟩

/-- The timeout of a direction is for a read or write when the event is connected, and for an
accept or connect when it is not. -/
def Dir.timeoutOp : Dir → Bool → TcpTimeoutOp
  | .read, true => .read
  | .read, false => .accept
  | .write, true => .write
  | .write, false => .connect

theorem Dir.timeoutOp_inj {d : Dir} {x y : Bool} (h : d.timeoutOp x = d.timeoutOp y) : x = y := by
  revert h
  cases d <;> cases x <;> cases y <;> decide

namespace Side

/-- The invariant of a direction with `q` completions in the queue and `b` in the batch. -/
structure Ok (d : Dir) (x : Side) (q b : ℕ) : Prop where
  onIo : x.onIo.isSome = (x.flag && x.connected)
  onConn : x.onConn.isSome = (x.flag && !x.connected)
  mode : x.flag = true → x.connected = true ∨ x.mayConn = true
  le_one : q + b ≤ 1
  flag : 0 < q + b → x.flag = true
  bytes : 0 < q + b → x.connected = true → x.ctx.bytes ≤ x.buf.len
  timeout : x.timeout.active = true →
    x.flag = true ∧ q = 0 ∧ x.timeout.op = d.timeoutOp x.connected

variable {d : Dir} {x : Side} {q b : ℕ}

structure Idle (x : Side) (q b : ℕ) : Prop where
  flag : x.flag = false
  onIo : x.onIo = none
  onConn : x.onConn = none
  timeout : x.timeout.active = false
  none_under_way : q + b = 0

theorem Idle.ok (h : x.Idle q b) : x.Ok d q b where
  onIo := by rw [h.onIo, h.flag]; rfl
  onConn := by rw [h.onConn, h.flag]; rfl
  mode := by simp [h.flag]
  le_one := by rw [h.none_under_way]; exact Nat.zero_le 1
  flag := by simp [h.none_under_way]
  bytes := by simp [h.none_under_way]
  timeout := by simp [h.timeout]

namespace Ok

theorem idle (h : x.Ok d q b) (hflag : x.flag = false) : x.Idle q b where
  flag := hflag
  onIo := by simpa [hflag] using h.onIo
  onConn := by simpa [hflag] using h.onConn
  timeout := by
    by_contra hactive
    rw [Bool.not_eq_false] at hactive
    rw [(h.timeout hactive).1] at hflag
    cases hflag
  none_under_way := by
    by_contra hpos
    rw [h.flag (Nat.pos_of_ne_zero hpos)] at hflag
    cases hflag

theorem onIo_eq_none (h : x.Ok d q b) (hc : x.connected = false) : x.onIo = none := by
  simpa [hc] using h.onIo

theorem onConn_eq_none (h : x.Ok d q b) (hc : x.connected = true) : x.onConn = none := by
  simpa [hc] using h.onConn

theorem onIo_ne_none (h : x.Ok d q b) (hflag : x.flag = true) (hc : x.connected = true) :
    x.onIo ≠ none := by
  intro hnone
  simpa [hnone, hflag, hc] using h.onIo

theorem onConn_ne_none (h : x.Ok d q b) (hflag : x.flag = true) (hc : x.connected = false) :
    x.onConn ≠ none := by
  intro hnone
  simpa [hnone, hflag, hc] using h.onConn

theorem connected_of_timeout (h : x.Ok d q b) (hactive : x.timeout.active = true) {c : Bool}
    (hop : x.timeout.op = d.timeoutOp c) : x.connected = c :=
  Dir.timeoutOp_inj ((h.timeout hactive).2.2.symm.trans hop)

theorem not_ignored (h : x.Ok d q b) (hactive : x.timeout.active = true)
    (hlost : x.flag = false ∨ (x.timeout.op = d.timeoutOp false → x.onConn = none) ∧
      (x.timeout.op = d.timeoutOp true → x.onIo = none)) : False := by
  obtain ⟨hflag, -, hop⟩ := h.timeout hactive
  rcases hlost with hlost | ⟨hconn, hio⟩
  · exact absurd (hflag.symm.trans hlost) (by decide)
  · cases hc : x.connected with
    | true => exact h.onIo_ne_none hflag hc (hio (by rw [hop, hc]))
    | false => exact h.onConn_ne_none hflag hc (hconn (by rw [hop, hc]))

theorem not_stale (h : x.Ok d q b) (hflag : x.flag = true) (hc : x.connected = true)
    (hlost : x.flag = false ∨ x.onIo = none) : False :=
  hlost.elim (fun hf ↦ absurd (hflag.symm.trans hf) (by decide)) (h.onIo_ne_none hflag hc)

theorem not_staleConn (h : x.Ok d q b) (hflag : x.flag = true) (hc : x.connected = false)
    (hlost : x.flag = false ∨ x.onConn = none) : False :=
  hlost.elim (fun hf ↦ absurd (hflag.symm.trans hf) (by decide)) (h.onConn_ne_none hflag hc)

theorem beginIo (h : x.Ok d q b) (hflag : x.flag = false) (hconnected : x.connected = true)
    (o n : ℕ) {c : IoContext} {bf : IoBuf} {τ : TcpTimeout} (hn : n ≤ 1)
    (hbytes : n = 1 → c.bytes ≤ bf.len)
    (hτ : τ.active = false ∨ n = 0 ∧ τ.op = d.timeoutOp true) :
    Ok d { x with flag := true, onIo := some o, ctx := c, buf := bf, timeout := τ } (q + n) b := by
  have hidle := h.idle hflag
  have hqb := hidle.none_under_way
  exact
    { onIo := by rw [hconnected]; rfl
      onConn := by rw [hidle.onConn, hconnected]; rfl
      mode := fun _ ↦ .inl hconnected
      le_one := by omega
      flag := fun _ ↦ rfl
      bytes := fun hpos _ ↦ hbytes (by omega)
      timeout := by
        intro hactive
        rcases hτ with hτ | ⟨hn₀, hop⟩
        · exact absurd (hactive.symm.trans hτ) (by decide)
        · exact ⟨rfl, by omega, by rw [hconnected]; exact hop⟩ }

theorem beginConn (h : x.Ok d q b) (hflag : x.flag = false) (hconnected : x.connected = false)
    (hmay : x.mayConn = true) (o n : ℕ) {c : IoContext} {bf : IoBuf} {τ : TcpTimeout} (hn : n ≤ 1)
    (hτ : τ.active = false ∨ n = 0 ∧ τ.op = d.timeoutOp false) :
    Ok d { x with flag := true, onConn := some o, ctx := c, buf := bf, timeout := τ }
      (q + n) b := by
  have hidle := h.idle hflag
  have hqb := hidle.none_under_way
  exact
    { onIo := by rw [hidle.onIo, hconnected]; rfl
      onConn := by rw [hconnected]; rfl
      mode := fun _ ↦ .inr hmay
      le_one := by omega
      flag := fun _ ↦ rfl
      bytes := fun _ hc ↦ absurd hc (by rw [hconnected]; decide)
      timeout := by
        intro hactive
        rcases hτ with hτ | ⟨hn₀, hop⟩
        · exact absurd (hactive.symm.trans hτ) (by decide)
        · exact ⟨rfl, by omega, by rw [hconnected]; exact hop⟩ }

/-- The context is completed: its completion goes into the batch. -/
theorem complete (h : x.Ok d q b) (hflag : x.flag = true) (hqb : q = 0 ∧ b = 0) {c : IoContext}
    {bf : IoBuf} (hbytes : x.connected = true → c.bytes ≤ bf.len) :
    Ok d { x with ctx := c, buf := bf } q (b + 1) where
  onIo := h.onIo
  onConn := h.onConn
  mode := h.mode
  le_one := by omega
  flag := fun _ ↦ hflag
  bytes := fun _ ↦ hbytes
  timeout := h.timeout

theorem poll (h : x.Ok d q b) {q' b' : ℕ} (hb : b = 0) (hqb : q' + b' = q) : x.Ok d q' b' where
  onIo := h.onIo
  onConn := h.onConn
  mode := h.mode
  le_one := by have := h.le_one; omega
  flag := fun hpos ↦ h.flag (by omega)
  bytes := fun hpos ↦ h.bytes (by omega)
  timeout := by
    intro hactive
    obtain ⟨h₁, h₂, h₃⟩ := h.timeout hactive
    exact ⟨h₁, by omega, h₃⟩

theorem disarm (h : x.Ok d q b) : Ok d { x with timeout := ⟨false, .none⟩ } q b where
  onIo := h.onIo
  onConn := h.onConn
  mode := h.mode
  le_one := h.le_one
  flag := h.flag
  bytes := h.bytes
  timeout := fun hactive ↦ by cases hactive

end Ok

end Side

/-! ## The machine of one event -/

/-- A TCP event and the numbers of its completions in the queue and in the batch. -/
structure TcpView where
  t : Tcp
  queued : Dir → ℕ
  batched : Dir → ℕ

inductive TcpAct
  | call (c : TcpCall) (sys : Sys)
  | timeout (d : Dir) (sys : Sys)
  | offer (d : Dir) (sys : Sys)
  | dispatch (d : Dir) (sys : Sys)
  | free
  /-- The `next` field is changed. -/
  | link
  /-- Completions move from the queue to the batch. -/
  | poll

/-- The completions of a direction that the effects put into the queue. -/
def submits (effects : List IoEffect) (d : Dir) : ℕ :=
  (effects.filterMap IoEffect.submitted?).count d

open Tcp in
inductive TcpStep : TcpView → TcpAct → TcpView → Prop
  | call {v : TcpView} {c op sys fresh t' effects ret} (hlive : v.t.deleted = false)
      (hkernel : c.kernel sys = true) (h : CallOutcome v.t op sys fresh c t' effects ret) :
    TcpStep v (.call c sys) ⟨t', fun d ↦ v.queued d + submits effects d, v.batched⟩
  | timeout {v : TcpView} {d sys t' effects} (hactive : (v.t.timeout d).active = true)
      (hbatch : ∀ d, v.batched d = 0) (h : TimeoutOutcome v.t d sys t' effects) :
    TcpStep v (.timeout d sys) ⟨t', v.queued, v.batched⟩
  | offer {v : TcpView} {d sys fresh t' completed effects}
      (hnone : v.queued d = 0 ∧ v.batched d = 0)
      (h : OfferOutcome v.t d sys fresh t' completed effects) :
    TcpStep v (.offer d sys)
      ⟨t', v.queued, Function.update v.batched d (v.batched d + if completed then 1 else 0)⟩
  | dispatch {v : TcpView} {d sys fresh t' client effects} (hbatch : 0 < v.batched d)
      (h : DispatchOutcome v.t d sys fresh t' client effects) :
    TcpStep v (.dispatch d sys)
      ⟨t', v.queued, Function.update v.batched d (v.batched d - 1)⟩
  | free {v : TcpView} {n} (hlive : v.t.deleted = false)
      (hpending : v.t.reading = true ∨ v.t.writing = true) :
    TcpStep v .free
      ⟨{ v.t with
          timeoutRead := ⟨false, .none⟩, timeoutWrite := ⟨false, .none⟩, sock := none
          deleted := true, next := n },
        v.queued, v.batched⟩
  | link {v : TcpView} {n} : TcpStep v .link ⟨{ v.t with next := n }, v.queued, v.batched⟩
  | poll {v : TcpView} {q b} (hbatch : ∀ d, v.batched d = 0)
      (hmoved : ∀ d, q d + b d = v.queued d) : TcpStep v .poll ⟨v.t, q, b⟩

/-- The client does not open a socket on an event in the error state. -/
def TcpAct.noReconnect (v : TcpView) : TcpAct → Prop
  | .call c _ => Tcp.opens c = true → v.t.error = false
  | _ => True

/-- The client does not open a socket on an event that is in the error state and has none: on an
event that has one the calls are refused. -/
def TcpAct.noReopen (v : TcpView) : TcpAct → Prop
  | .call c _ => Tcp.opens c = true → v.t.sock = none → v.t.error = false
  | _ => True

/-- The client does not open a socket on an event on which something is pending. -/
def TcpAct.opensIdle (v : TcpView) : TcpAct → Prop
  | .call c _ => Tcp.opens c = true → v.t.sock = none →
      v.t.reading = false ∧ v.t.writing = false ∧ v.t.connected = false ∧ v.t.listening = false
  | _ => True

theorem TcpAct.noReconnect.noReopen {v : TcpView} {a : TcpAct} (h : a.noReconnect v) :
    a.noReopen v := by
  cases a with
  | call c sys => exact fun hc _ ↦ h hc
  | _ => trivial

/-! ## The invariant -/

/-- An event without a socket that is not in the error state is new. -/
def Tcp.NewIfClosed (t : Tcp) : Prop :=
  t.error = false → t.deleted = false → t.sock = none →
    t.reading = false ∧ t.writing = false ∧ t.connected = false ∧ t.listening = false ∧
      t.reactorEvents = .empty

structure TcpView.Ok (v : TcpView) : Prop where
  side : ∀ d, (v.t.side d).Ok d (v.queued d) (v.batched d)
  role : v.t.connected = true → v.t.listening = false
  pristine : v.t.NewIfClosed

namespace TcpView.Ok

variable {v : TcpView}

theorem read (h : v.Ok) : (v.t.side .read).Ok .read (v.queued .read) (v.batched .read) :=
  h.side .read

theorem write (h : v.Ok) : (v.t.side .write).Ok .write (v.queued .write) (v.batched .write) :=
  h.side .write

theorem mk' {t : Tcp} {q b : Dir → ℕ} (hread : (t.side .read).Ok .read (q .read) (b .read))
    (hwrite : (t.side .write).Ok .write (q .write) (b .write))
    (hrole : t.connected = true → t.listening = false)
    (hpristine : t.NewIfClosed) : TcpView.Ok ⟨t, q, b⟩ where
  side := fun d ↦ by
    cases d with
    | read => exact hread
    | write => exact hwrite
  role := hrole
  pristine := hpristine

theorem mk_read {t : Tcp} {q b : Dir → ℕ} {n : ℕ} (hread : (t.side .read).Ok .read (q .read) n)
    (hwrite : (t.side .write).Ok .write (q .write) (b .write))
    (hrole : t.connected = true → t.listening = false)
    (hpristine : t.NewIfClosed) : TcpView.Ok ⟨t, q, Function.update b .read n⟩ :=
  .mk' (by rwa [Function.update_self]) (by rwa [Function.update_of_ne (by decide)]) hrole hpristine

theorem mk_write {t : Tcp} {q b : Dir → ℕ} {n : ℕ}
    (hread : (t.side .read).Ok .read (q .read) (b .read))
    (hwrite : (t.side .write).Ok .write (q .write) n)
    (hrole : t.connected = true → t.listening = false)
    (hpristine : t.NewIfClosed) : TcpView.Ok ⟨t, q, Function.update b .write n⟩ :=
  .mk' (by rwa [Function.update_of_ne (by decide)]) (by rwa [Function.update_self]) hrole hpristine

end TcpView.Ok

theorem tcpNew_ok : TcpView.Ok ⟨.tcpNew, fun _ ↦ 0, fun _ ↦ 0⟩ :=
  .mk' (Side.Idle.ok ⟨rfl, rfl, rfl, rfl, rfl⟩) (Side.Idle.ok ⟨rfl, rfl, rfl, rfl, rfl⟩)
    (fun h ↦ by cases h) fun _ _ _ ↦ ⟨rfl, rfl, rfl, rfl, rfl⟩

section Registration

variable {m events m' : Mask} {k k' : Option Socket} {err : Option Errno} {sys : Sys}

theorem epollPollerModify_eq_none_iff
    (h : epollPollerModify m k events sys = ⟨err, m', k'⟩) : k' = none ↔ k = none := by
  rw [← Option.map_eq_none_iff (f := Socket.fd), Tcp.epollPollerModify_fd h,
    Option.map_eq_none_iff]

theorem epollPollerModify_none (h : epollPollerModify m none events sys = ⟨err, m', k'⟩) :
    m' = m := by
  unfold epollPollerModify at h
  split at h <;> cases h <;> rfl

end Registration

theorem Tcp.Unarmed.inactive {τ τ' : TcpTimeout} (h : Tcp.Unarmed τ τ') (hτ : τ.active = false) :
    τ'.active = false := by
  rcases h with rfl | rfl | ⟨hactive, -⟩
  · exact hτ
  · rfl
  · rw [hτ] at hactive
    cases hactive

theorem Tcp.Armed.inactive_or {τ τ' : TcpTimeout} {o : TcpTimeoutOp} (h : Tcp.Armed τ τ' o)
    (hτ : τ.active = false) : τ'.active = false ∨ 0 = 0 ∧ τ'.op = o := by
  rcases h with rfl | ⟨-, rfl⟩
  · exact .inl hτ
  · exact .inr ⟨rfl, rfl⟩

@[simp] theorem submits_nil (d : Dir) : submits [] d = 0 := rfl

@[simp] theorem submits_opened (fd : ℕ) (effects : List IoEffect) (d : Dir) :
    submits (.opened fd :: effects) d = submits effects d := rfl

@[simp] theorem submits_accepted (fd : ℕ) (effects : List IoEffect) (d : Dir) :
    submits (.accepted fd :: effects) d = submits effects d := rfl

@[simp] theorem submits_close (fd : ℕ) (effects : List IoEffect) (d : Dir) :
    submits (.close fd :: effects) d = submits effects d := rfl

@[simp] theorem submits_assertEffect (a : Bool) (d : Dir) : submits (assertEffect a) d = 0 := by
  cases a <;> rfl

/-! ## Preservation -/

namespace TcpView.Ok

variable {v : TcpView}

open Tcp

/-- The idle direction of writing may be reset in any way that leaves the timeout inactive. -/
theorem write_idle (h : v.Ok) (hwriting : v.t.writing = false) :
    (v.t.side .write).Idle (v.queued .write) (v.batched .write) := h.write.idle hwriting

theorem read_idle (h : v.Ok) (hreading : v.t.reading = false) :
    (v.t.side .read).Idle (v.queued .read) (v.batched .read) := h.read.idle hreading

theorem not_connected (h : v.Ok) (hlistening : v.t.listening = true) : v.t.connected = false := by
  by_contra hcon
  rw [h.role (Bool.eq_true_of_not_eq_false hcon)] at hlistening
  cases hlistening

theorem call {c : TcpCall} {op : ℕ} {sys : Sys} {fresh : Fresh} {t' : Tcp}
    {effects : List IoEffect} {ret : RetCode} (h : v.Ok) (hkernel : c.kernel sys = true)
    (hopen : opens c = true → v.t.sock = none →
      v.t.reading = false ∧ v.t.writing = false ∧ v.t.connected = false ∧ v.t.listening = false)
    (hc : CallOutcome v.t op sys fresh c t' effects ret) :
    TcpView.Ok ⟨t', fun d ↦ v.queued d + submits effects d, v.batched⟩ := by
  cases hc with
  | refused hret => exact h
  | systemFailed hc => exact .mk' h.read h.write h.role fun her ↦ by cases her
  | noSocket hc hsock hτ =>
    obtain ⟨hr, hw, hcon, hlis⟩ := hopen hc hsock
    have hidle := h.write_idle hw
    refine .mk' h.read (Side.Idle.ok ⟨hw, hidle.onIo, hidle.onConn, ?_, hidle.none_under_way⟩)
      h.role fun her ↦ by cases her
    exact hτ.inactive hidle.timeout
  | openFailed hc hsock hreg hτ =>
    obtain ⟨hr, hw, hcon, hlis⟩ := hopen hc hsock
    have hidle := h.write_idle hw
    simp only [submits_opened, submits_assertEffect, Nat.add_zero]
    refine .mk' h.read (Side.Idle.ok ⟨hw, hidle.onIo, hidle.onConn, ?_, hidle.none_under_way⟩)
      h.role fun her ↦ by cases her
    exact hτ.inactive hidle.timeout
  | connectQueued hsock =>
    -- `connect` has succeeded at once: no timeout is armed, and one completion is submitted
    obtain ⟨hr, hw, hcon, hlis⟩ := hopen rfl hsock
    have hmay : (v.t.side .write).mayConn = true := by simp [Tcp.side, hlis]
    exact .mk' h.read
      (h.write.beginConn hw hcon hmay op 1 le_rfl (.inl (h.write_idle hw).timeout)) h.role
      fun _ _ hk ↦ by cases hk
  | connectDeferred hsock hreg hτ =>
    obtain ⟨hr, hw, hcon, hlis⟩ := hopen rfl hsock
    have hmay : (v.t.side .write).mayConn = true := by simp [Tcp.side, hlis]
    simp only [submits_opened, submits_assertEffect, Nat.add_zero]
    exact .mk' h.read
      (h.write.beginConn hw hcon hmay op 0 zero_le_one (hτ.inactive_or (h.write_idle hw).timeout))
      h.role fun _ _ hk ↦ by cases (epollPollerModify_eq_none_iff hreg).mp hk
  | listenDone hsock hreg =>
    obtain ⟨hr, hw, hcon, hlis⟩ := hopen rfl hsock
    have hri := h.read_idle hr
    have hwi := h.write_idle hw
    refine .mk' (Side.Idle.ok ⟨hr, hri.onIo, hri.onConn, hri.timeout, hri.none_under_way⟩)
      (Side.Idle.ok ⟨hw, hwi.onIo, hwi.onConn, hwi.timeout, hwi.none_under_way⟩)
      (fun hc ↦ ?_) fun _ _ hk ↦ ?_
    · rw [hcon] at hc
      cases hc
    · cases (epollPollerModify_eq_none_iff hreg).mp hk
  | acceptFailed hlistening herror hreading hτ heffects =>
    -- a connection that was accepted before the failure has been closed again
    have hidle := h.read_idle hreading
    have hsubmits : ∀ d, submits effects d = 0 := by
      rcases heffects with rfl | rfl <;> exact fun d ↦ rfl
    simp only [hsubmits, Nat.add_zero]
    refine .mk' (Side.Idle.ok ⟨hreading, hidle.onIo, hidle.onConn, ?_, hidle.none_under_way⟩)
      h.write h.role fun her ↦ by cases her
    exact hτ.inactive hidle.timeout
  | acceptQueued hlistening hsock herror hreading =>
    have hcon : v.t.connected = false := h.not_connected hlistening
    exact .mk'
      (h.read.beginConn hreading hcon hlistening op 1 le_rfl (.inl (h.read_idle hreading).timeout))
      h.write h.role fun _ _ hk ↦ absurd hk hsock
  | acceptDeferred hlistening hsock herror hreading hτ =>
    have hcon : v.t.connected = false := h.not_connected hlistening
    exact .mk'
      (h.read.beginConn hreading hcon hlistening op 0 zero_le_one
        (hτ.inactive_or (h.read_idle hreading).timeout))
      h.write h.role fun _ _ hk ↦ absurd hk hsock
  | writeFailed hconnected herror hwriting hreg hevents hτ =>
    have hidle := h.write_idle hwriting
    simp only [submits_assertEffect, Nat.add_zero]
    refine .mk' h.read
      (Side.Idle.ok ⟨hwriting, hidle.onIo, hidle.onConn, ?_, hidle.none_under_way⟩) h.role
      fun her ↦ by cases her
    exact hτ.inactive hidle.timeout
  | writeQueued hconnected hsock herror hwriting hn =>
    -- the kernel has not written more than was asked for
    rw [TcpCall.kernel, hn, IoResult.sends, Bool.and_eq_true, decide_eq_true_eq,
      decide_eq_true_eq] at hkernel
    exact .mk' h.read
      (h.write.beginIo hwriting hconnected op 1 le_rfl (fun _ ↦ hkernel.2)
        (.inl (h.write_idle hwriting).timeout))
      h.role fun _ _ hk ↦ absurd hk hsock
  | writeDeferred hconnected hsock herror hwriting hreg hτ =>
    simp only [submits_assertEffect, Nat.add_zero]
    exact .mk' h.read
      (h.write.beginIo hwriting hconnected op 0 zero_le_one (fun h ↦ by cases h)
        (hτ.inactive_or (h.write_idle hwriting).timeout))
      h.role fun _ _ hk ↦ absurd ((epollPollerModify_eq_none_iff hreg).mp hk) hsock
  | readFailed hconnected herror hreading hτ =>
    have hidle := h.read_idle hreading
    refine .mk' (Side.Idle.ok ⟨hreading, hidle.onIo, hidle.onConn, ?_, hidle.none_under_way⟩)
      h.write h.role fun her ↦ by cases her
    exact hτ.inactive hidle.timeout
  | readDeferred hconnected hsock herror hreading hτ =>
    exact .mk'
      (h.read.beginIo hreading hconnected op 0 zero_le_one (fun h ↦ by cases h)
        (hτ.inactive_or (h.read_idle hreading).timeout))
      h.write h.role fun _ _ hk ↦ absurd hk hsock

/-- A pending operation has been started on a socket, so the event is not new any more. -/
theorem not_pristine (h : v.Ok) (hflag : v.t.reading = true ∨ v.t.writing = true)
    (herror : v.t.error = false) (hlive : v.t.deleted = false) : v.t.sock ≠ none := by
  intro hsock
  obtain ⟨hr, hw, -⟩ := h.pristine herror hlive hsock
  rcases hflag with hflag | hflag
  · exact absurd (hflag.symm.trans hr) (by decide)
  · exact absurd (hflag.symm.trans hw) (by decide)

theorem timeout {d : Dir} {sys : Sys} {t' : Tcp} {effects : List IoEffect} (h : v.Ok)
    (hactive : (v.t.timeout d).active = true) (hbatch : ∀ d, v.batched d = 0)
    (ho : TimeoutOutcome v.t d sys t' effects) : TcpView.Ok ⟨t', v.queued, v.batched⟩ := by
  cases ho with
  | readIgnored hd hτ her hlost =>
    subst hd
    exact (h.read.not_ignored hactive hlost).elim
  | acceptExpired hd hto hreading hop =>
    subst hd
    have hio := h.read.onIo_eq_none (h.read.connected_of_timeout hactive hto)
    have hq := (h.read.timeout hactive).2.1
    exact .mk' (Side.Idle.ok ⟨rfl, hio, rfl, rfl, by rw [hq, hbatch]⟩) h.write h.role
      fun her ↦ by cases her
  | readExpired hd hto hreading hop =>
    subst hd
    have hconn := h.read.onConn_eq_none (h.read.connected_of_timeout hactive hto)
    have hq := (h.read.timeout hactive).2.1
    exact .mk' (Side.Idle.ok ⟨rfl, rfl, hconn, rfl, by rw [hq, hbatch]⟩) h.write h.role
      fun her ↦ by cases her
  | writeIgnored hd hτ her hlost =>
    subst hd
    exact (h.write.not_ignored hactive hlost).elim
  | connectExpired hd hto hwriting hop hreg =>
    subst hd
    have hio := h.write.onIo_eq_none (h.write.connected_of_timeout hactive hto)
    have hq := (h.write.timeout hactive).2.1
    exact .mk' h.read (Side.Idle.ok ⟨rfl, hio, rfl, rfl, by rw [hq, hbatch]⟩) h.role
      fun her ↦ by cases her
  | writeExpired hd hto hwriting hop hreg =>
    subst hd
    have hconn := h.write.onConn_eq_none (h.write.connected_of_timeout hactive hto)
    have hq := (h.write.timeout hactive).2.1
    exact .mk' h.read (Side.Idle.ok ⟨rfl, rfl, hconn, rfl, by rw [hq, hbatch]⟩) h.role
      fun her ↦ by cases her

theorem offer {d : Dir} {sys : Sys} {fresh : Fresh} {t' : Tcp} {completed : Bool}
    {effects : List IoEffect} (h : v.Ok) (hnone : v.queued d = 0 ∧ v.batched d = 0)
    (ho : OfferOutcome v.t d sys fresh t' completed effects) :
    TcpView.Ok
      ⟨t', v.queued, Function.update v.batched d (v.batched d + if completed then 1 else 0)⟩ := by
  cases ho with
  | nothing => simpa using h
  | read hd hreading hconnected hc =>
    subst hd
    exact .mk_read (h.read.complete hreading hnone fun _ ↦ hc) h.write h.role h.pristine
  | accepted hd hreading hconnected | acceptFailed hd hreading hconnected heffects =>
    subst hd
    refine .mk_read (h.read.complete hreading hnone fun hc ↦ ?_) h.write h.role h.pristine
    exact absurd (hc.symm.trans hconnected) (by decide)
  | write hd hwriting hconnected hc =>
    subst hd
    exact .mk_write h.read (h.write.complete hwriting hnone fun _ ↦ hc) h.role h.pristine
  | connect hd hwriting hconnected =>
    subst hd
    refine .mk_write h.read (h.write.complete hwriting hnone fun hc ↦ ?_) h.role h.pristine
    exact absurd (hc.symm.trans hconnected) (by decide)

/-- Without a connection, only an event that listens has an operation pending for reading. -/
theorem not_reading (h : v.Ok) (hconnected : v.t.connected = false)
    (hlistening : v.t.listening = false) : v.t.reading = false := by
  by_contra hr
  rcases h.read.mode (Bool.eq_true_of_not_eq_false hr) with hc | hl
  · exact absurd (hc.symm.trans hconnected) (by decide)
  · exact absurd (hl.symm.trans hlistening) (by decide)

theorem eq_read_of_listening {d : Dir} (h : v.Ok) (hflag : (v.t.side d).flag = true)
    (hconnected : v.t.connected = false) (hlistening : v.t.listening = true) : d = .read := by
  cases d with
  | read => rfl
  | write =>
    rcases h.write.mode hflag with hc | hl
    · exact absurd (hc.symm.trans hconnected) (by decide)
    · simp [Tcp.side, hlistening] at hl

theorem eq_write_of_not_listening {d : Dir} (h : v.Ok) (hflag : (v.t.side d).flag = true)
    (hconnected : v.t.connected = false) (hlistening : v.t.listening = false) : d = .write := by
  cases d with
  | write => rfl
  | read => exact absurd (hflag.symm.trans (h.not_reading hconnected hlistening)) (by decide)

theorem completed {d : Dir} (h : v.Ok) (hbatch : 0 < v.batched d) :
    (v.t.side d).flag = true ∧ v.queued d + (v.batched d - 1) = 0 := by
  have hle := (h.side d).le_one
  exact ⟨(h.side d).flag (by omega), by omega⟩

theorem noted_newIfClosed {d : Dir} {sys : Sys} {m : Mask} {k : Option Socket} {er : Bool}
    (h : v.Ok) (hflag : v.t.reading = true ∨ v.t.writing = true)
    (hn : Noted v.t d sys m k er) (her : er = false) (hlive : v.t.deleted = false) : k ≠ none := by
  intro hk
  obtain ⟨events, err, -, hreg⟩ := hn.reg
  rw [hn.error, Bool.or_eq_false_iff] at her
  exact h.not_pristine hflag her.1 hlive ((epollPollerModify_eq_none_iff hreg).mp hk)

theorem dispatch {d : Dir} {sys : Sys} {fresh : Fresh} {t' : Tcp} {client : Option Tcp}
    {effects : List IoEffect} (h : v.Ok) (hbatch : 0 < v.batched d)
    (ho : DispatchOutcome v.t d sys fresh t' client effects) :
    TcpView.Ok ⟨t', v.queued, Function.update v.batched d (v.batched d - 1)⟩ := by
  obtain ⟨hflag, hzero⟩ := h.completed hbatch
  cases ho with
  | readDone hn hd hconnected hreading hop =>
    subst hd
    have hconn := h.read.onConn_eq_none hconnected
    exact .mk_read (Side.Idle.ok ⟨rfl, rfl, hconn, rfl, hzero⟩) h.write h.role
      fun her hlive hk ↦ absurd hk (h.noted_newIfClosed (.inl hreading) hn her hlive)
  | writeDone hn hd hconnected hwriting hop =>
    subst hd
    have hconn := h.write.onConn_eq_none hconnected
    exact .mk_write h.read (Side.Idle.ok ⟨rfl, rfl, hconn, rfl, hzero⟩) h.role
      fun her hlive hk ↦ absurd hk (h.noted_newIfClosed (.inr hwriting) hn her hlive)
  | acceptDone hn hconnected hlistening hreading hop hdeleted
  | acceptDropped hn hconnected hlistening hreading hop hdeleted =>
    obtain rfl := h.eq_read_of_listening hflag hconnected hlistening
    have hio := h.read.onIo_eq_none hconnected
    exact .mk_read (Side.Idle.ok ⟨rfl, hio, rfl, rfl, hzero⟩) h.write h.role
      fun her hlive hk ↦ absurd hk (h.noted_newIfClosed (.inl hreading) hn her hlive)
  | connectDone hn hconnected hlistening hwriting hop hdeleted hstatus hreg =>
    obtain rfl := h.eq_write_of_not_listening hflag hconnected hlistening
    have hio := h.write.onIo_eq_none hconnected
    have hread := h.read_idle (h.not_reading hconnected hlistening)
    refine .mk_write (Side.Idle.ok ⟨hread.flag, hread.onIo, hread.onConn, hread.timeout,
      hread.none_under_way⟩) (Side.Idle.ok ⟨rfl, hio, rfl, rfl, hzero⟩) (fun _ ↦ hlistening)
      fun her hlive hk ↦ ?_
    rw [epollPollerModify_eq_none_iff hreg] at hk
    exact absurd hk (h.noted_newIfClosed (.inr hwriting) hn her hlive)
  | connectFailed hn hconnected hlistening hwriting hop hfailed =>
    obtain rfl := h.eq_write_of_not_listening hflag hconnected hlistening
    have hio := h.write.onIo_eq_none hconnected
    exact .mk_write h.read (Side.Idle.ok ⟨rfl, hio, rfl, rfl, hzero⟩) h.role
      fun her hlive hk ↦ absurd hk (h.noted_newIfClosed (.inr hwriting) hn her hlive)
  | readStale hn hd hconnected hlost hr hτ =>
    subst hd
    exact (h.read.not_stale hflag hconnected hlost).elim
  | writeStale hn hd hconnected hlost hw =>
    subst hd
    exact (h.write.not_stale hflag hconnected hlost).elim
  | acceptStale hn hconnected hlistening hlost hr hτ =>
    obtain rfl := h.eq_read_of_listening hflag hconnected hlistening
    exact (h.read.not_staleConn hflag hconnected hlost).elim
  | connectStale hn hconnected hlistening hlost hw =>
    obtain rfl := h.eq_write_of_not_listening hflag hconnected hlistening
    exact (h.write.not_staleConn hflag hconnected hlost).elim

end TcpView.Ok

/-- **The invariant of a TCP event** is kept by its steps. -/
theorem TcpStep.ok_of_opensIdle {v v' : TcpView} {a : TcpAct} (hstep : TcpStep v a v') (h : v.Ok)
    (ha : a.opensIdle v) : v'.Ok := by
  cases hstep with
  | call hlive hkernel hc => exact h.call hkernel ha hc
  | timeout hactive hbatch ho => exact h.timeout hactive hbatch ho
  | offer hnone ho => exact h.offer hnone ho
  | dispatch hbatch ho => exact h.dispatch hbatch ho
  | free hlive hpending =>
    exact .mk' h.read.disarm h.write.disarm h.role fun _ hdel ↦ by cases hdel
  | link => exact .mk' h.read h.write h.role h.pristine
  | poll hbatch hmoved =>
    exact .mk' (h.read.poll (hbatch _) (hmoved _)) (h.write.poll (hbatch _) (hmoved _)) h.role
      h.pristine

theorem TcpStep.ok_of_noReopen {v v' : TcpView} {a : TcpAct} (hstep : TcpStep v a v') (h : v.Ok)
    (ha : a.noReopen v) : v'.Ok := by
  refine hstep.ok_of_opensIdle h ?_
  cases hstep with
  | call hlive hkernel hc =>
    intro hopens hsock
    obtain ⟨hr, hw, hcon, hlis, -⟩ := h.pristine (ha hopens hsock) hlive hsock
    exact ⟨hr, hw, hcon, hlis⟩
  | _ => trivial

theorem TcpStep.ok {v v' : TcpView} {a : TcpAct} (hstep : TcpStep v a v') (h : v.Ok)
    (ha : a.noReconnect v) : v'.Ok := hstep.ok_of_noReopen h ha.noReopen

end Nanoev
