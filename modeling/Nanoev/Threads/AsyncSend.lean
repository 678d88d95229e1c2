import Nanoev.Transition.Run
import Nanoev.Io.Async

/-!
# Notifications from other threads

An async event that has been started, the threads that call `nanoev_async_send` on it, and the loop
that reads the pipe and delivers the completion. Here the critical section of `nanoev_async_send` is
not one step: the loop reads the pipe without the lock, so it may take the byte before the sender
has set `async_sent`.

What the lock protects is counted in *tokens*. A token is a byte in the pipe, or a byte that has
been read and whose completion has not been delivered. There is at most one, and when the lock is
free `async_sent` says whether there is one: a sender creates a token when there is none and then
sets the flag, and the delivery consumes it and clears the flag. The token is what makes the
callback of an earlier send still due.
-/

namespace Nanoev

open Transition

/-- Where a thread is in `nanoev_async_send`, when it holds the lock. -/
inductive SendPc
  /-- Before the tests of `async_sent` and of the flag `READING`. -/
  | test
  /-- Before `write`. -/
  | write
  /-- Before `async_sent = 1`. -/
  | set
  /-- At `my_exit`. -/
  | exit (ret : RetCode)
deriving DecidableEq, Repr

inductive LockHolder
  | sender (thread : ℕ) (pc : SendPc)
  /-- The loop, in `__async_proactor_callback`. -/
  | loop
deriving DecidableEq, Repr

inductive DeliveryPc
  | elsewhere
  /-- `epoll_wait` has reported the pipe. -/
  | reported
  /-- `reactor_cb` has completed the context. -/
  | completed
  /-- In `__async_proactor_callback`, before the call of `on_async`. -/
  | calling
  | inCallback
deriving DecidableEq, Repr

structure AsyncThreads where
  async : Async
  holder : Option LockHolder
  loop : DeliveryPc
  /-- The calls of `nanoev_async_send` that have returned `NANOEV_SUCCESS`: for each of them, how
  often `on_async` had been called when it released the lock. -/
  sends : List ℕ
  /-- How often `on_async` has been called. -/
  calls : ℕ

namespace AsyncThreads

def init (a : Async) : AsyncThreads where
  async := a
  holder := none
  loop := .elsewhere
  sends := []
  calls := 0

/-- A thread that holds the lock goes on in `nanoev_async_send`; the pipe has room for `capacity`
bytes. -/
def sendStep (capacity : ℕ) (x : AsyncThreads) (thread : ℕ) : SendPc → AsyncThreads
  | .test =>
    if x.async.asyncSent then { x with holder := some (.sender thread (.exit .success)) }
    else if x.async.reading then { x with holder := some (.sender thread (.exit .accessDenied)) }
    else { x with holder := some (.sender thread .write) }
  | .write =>
    if x.async.pipeBytes < capacity then
      { x with
        async := { x.async with pipeBytes := x.async.pipeBytes + 1 }
        holder := some (.sender thread .set) }
    else { x with holder := some (.sender thread (.exit .fail)) }
  | .set =>
    { x with
      async := { x.async with asyncSent := true }
      holder := some (.sender thread (.exit .success)) }
  | .exit ret =>
    { x with holder := none, sends := if ret = .success then x.sends ++ [x.calls] else x.sends }

inductive Action
  /-- A thread acquires the lock in `nanoev_async_send`. -/
  | lock (thread : ℕ)
  /-- The thread goes on. -/
  | send (thread : ℕ)
  /-- `epoll_wait` reports the pipe. -/
  | report
  /-- There is no room left in the batch. -/
  | skip
  /-- `reactor_cb`. -/
  | read (sys : Sys)
  /-- The loop acquires the lock in `__async_proactor_callback`. -/
  | deliver
  /-- The loop reads and clears `async_sent` and releases the lock. -/
  | clear
  /-- The loop calls `on_async`. -/
  | call
  /-- `on_async` returns. -/
  | callbackReturn
deriving DecidableEq, Repr

def step (capacity : ℕ) (x : AsyncThreads) : Action → Option AsyncThreads
  | .lock k =>
    if x.holder = none then some { x with holder := some (.sender k .test) } else none
  | .send k =>
    match x.holder with
    | some (.sender thread pc) => if thread = k then some (x.sendStep capacity k pc) else none
    | _ => none
  | .report =>
    if x.loop = .elsewhere ∧ 0 < x.async.pipeBytes then some { x with loop := .reported } else none
  | .skip => if x.loop = .reported then some { x with loop := .elsewhere } else none
  | .read sys =>
    if x.loop = .reported ∧ x.async.reactorKernel sys = true then
      some { x with async := x.async.reactorCb sys, loop := .completed }
    else none
  | .deliver =>
    if x.loop = .completed ∧ x.holder = none then some { x with holder := some .loop } else none
  | .clear =>
    if x.holder = some .loop then
      let (async, effects) := x.async.asyncProactorCallback
      some { x with
        async, holder := none, loop := if effects = [] then .elsewhere else .calling }
    else none
  | .call =>
    if x.loop = .calling then some { x with loop := .inCallback, calls := x.calls + 1 } else none
  | .callbackReturn =>
    if x.loop = .inCallback then some { x with loop := .elsewhere } else none

inductive Steps (capacity : ℕ) (x : AsyncThreads) : Action → AsyncThreads → Prop
  | lock {k} (hfree : x.holder = none) :
    Steps capacity x (.lock k) { x with holder := some (.sender k .test) }
  | send {k pc} (hheld : x.holder = some (.sender k pc)) :
    Steps capacity x (.send k) (x.sendStep capacity k pc)
  | report (hloop : x.loop = .elsewhere) (hbyte : 0 < x.async.pipeBytes) :
    Steps capacity x .report { x with loop := .reported }
  | skip (hloop : x.loop = .reported) : Steps capacity x .skip { x with loop := .elsewhere }
  | read {sys} (hloop : x.loop = .reported) (hk : x.async.reactorKernel sys = true) :
    Steps capacity x (.read sys) { x with async := x.async.reactorCb sys, loop := .completed }
  | deliver (hloop : x.loop = .completed) (hfree : x.holder = none) :
    Steps capacity x .deliver { x with holder := some .loop }
  | clear (hheld : x.holder = some .loop) :
    Steps capacity x .clear
      { x with
        async := x.async.asyncProactorCallback.1, holder := none
        loop := if x.async.asyncProactorCallback.2 = [] then .elsewhere else .calling }
  | call (hloop : x.loop = .calling) :
    Steps capacity x .call { x with loop := .inCallback, calls := x.calls + 1 }
  | callbackReturn (hloop : x.loop = .inCallback) :
    Steps capacity x .callbackReturn { x with loop := .elsewhere }

variable {capacity : ℕ} {x y : AsyncThreads} {a : Action}

theorem step_eq_some (h : x.step capacity a = some y) : Steps capacity x a y := by
  cases a with
  | lock k =>
    obtain ⟨hfree, rfl⟩ := of_guard h
    exact .lock hfree
  | send k =>
    simp only [step] at h
    split at h
    · next thread pc hheld =>
      obtain ⟨rfl, rfl⟩ := of_guard h
      exact .send hheld
    · cases h
  | report =>
    obtain ⟨⟨hloop, hbyte⟩, rfl⟩ := of_guard h
    exact .report hloop hbyte
  | skip =>
    obtain ⟨hloop, rfl⟩ := of_guard h
    exact .skip hloop
  | read sys =>
    obtain ⟨⟨hloop, hk⟩, rfl⟩ := of_guard h
    exact .read hloop hk
  | deliver =>
    obtain ⟨⟨hloop, hfree⟩, rfl⟩ := of_guard h
    exact .deliver hloop hfree
  | clear =>
    obtain ⟨hheld, rfl⟩ := of_guard h
    exact .clear hheld
  | call =>
    obtain ⟨hloop, rfl⟩ := of_guard h
    exact .call hloop
  | callbackReturn =>
    obtain ⟨hloop, rfl⟩ := of_guard h
    exact .callbackReturn hloop

/-! ## Tokens -/

/-- The bytes in the pipe, and those that have been read and whose completion has not been
delivered. -/
def tokens (x : AsyncThreads) : ℕ := x.async.pipeBytes + if x.loop = .completed then 1 else 0

/-- A callback is still to come: there is a token, or the loop is about to call `on_async`. -/
def Due (x : AsyncThreads) : Prop :=
  0 < x.async.pipeBytes ∨ x.loop = .completed ∨ x.loop = .calling

/-- What `async_sent` says about the tokens, which depends on where the holder of the lock is. -/
def Locked (x : AsyncThreads) : Prop :=
  match x.holder with
  | some (.sender _ .write) => x.async.asyncSent = false ∧ x.tokens = 0
  | some (.sender _ .set) => x.async.asyncSent = false ∧ x.tokens = 1
  | some (.sender _ (.exit ret)) => ret = .success ∧ x.async.asyncSent = true ∧ x.tokens = 1
  | _ => x.tokens = if x.async.asyncSent then 1 else 0

/-- The thread in the critical section may have created a token. -/
def unreturned (x : AsyncThreads) : ℕ :=
  match x.holder with
  | some (.sender _ .set) => 1
  | some (.sender _ (.exit _)) => 1
  | _ => 0

structure Inv (x : AsyncThreads) : Prop where
  reading : x.async.reading = false
  live : x.async.deleted = false
  callback : x.async.onAsync ≠ none
  reported : x.loop = .reported → 0 < x.async.pipeBytes
  status : x.loop = .completed → x.async.ctx.status = 0
  delivering : x.holder = some .loop → x.loop = .completed
  locked : x.Locked
  due : ∀ m ∈ x.sends, m ≤ x.calls ∧ (m < x.calls ∨ x.Due)
  credit : x.calls + (if x.loop = .calling then 1 else 0) + x.tokens ≤
    x.sends.length + x.unreturned

theorem due_of_tokens (h : 0 < x.tokens) : x.Due := by
  unfold tokens at h
  split at h
  · next hloop => exact .inr (.inl hloop)
  · exact .inl h

theorem Locked.congr (h : x.Locked) (hholder : y.holder = x.holder)
    (hsent : y.async.asyncSent = x.async.asyncSent) (htokens : y.tokens = x.tokens) : y.Locked := by
  unfold Locked
  rw [hholder, hsent, htokens]
  exact h

theorem init_inv {op : ℕ} {sys : Sys} {fresh : Fresh} {a : Async} {effects : List IoEffect}
    (h : Async.asyncNew.nanoevAsyncStart op sys fresh = (a, effects, .success)) : (init a).Inv := by
  obtain ⟨m, r, w, rfl⟩ : ∃ m r w, a = { Async.asyncNew with
      reactorEvents := m, pipeR := r, pipeW := w, onAsync := some op, started := true } := by
    unfold Async.nanoevAsyncStart at h
    rw [if_neg (by decide)] at h
    dsimp only at h
    split at h
    · cases h
    · split at h
      · cases h
      · cases h
      · split at h
        · cases h
        · exact ⟨_, _, _, (Prod.mk.inj h).1.symm⟩
  exact
    { reading := rfl
      live := rfl
      callback := Option.some_ne_none op
      reported := nofun
      status := nofun
      delivering := nofun
      locked := rfl
      due := nofun
      credit := le_rfl }

namespace Inv

theorem of_free (h : x.Inv) (hfree : x.holder = none) :
    x.tokens = (if x.async.asyncSent then 1 else 0) ∧
      x.calls + (if x.loop = .calling then 1 else 0) + x.tokens ≤ x.sends.length := by
  have hlocked := h.locked
  have hcredit := h.credit
  unfold Locked at hlocked
  unfold unreturned at hcredit
  rw [hfree] at hlocked hcredit
  exact ⟨hlocked, hcredit⟩

theorem of_loop (h : x.Inv) (hheld : x.holder = some .loop) :
    x.async.pipeBytes = 0 ∧ x.calls + 1 ≤ x.sends.length ∧
      ∃ c, x.async.asyncProactorCallback.2 = [.call c] := by
  have hloop := h.delivering hheld
  have hlocked := h.locked
  have hcredit := h.credit
  unfold Locked at hlocked
  unfold unreturned at hcredit
  rw [hheld] at hlocked hcredit
  dsimp only at hlocked hcredit
  rw [tokens, if_pos hloop] at hlocked hcredit
  have hsent : x.async.asyncSent = true := by
    by_contra hsent
    rw [if_neg hsent] at hlocked
    omega
  rw [if_pos hsent] at hlocked
  obtain ⟨op, hop⟩ := Option.ne_none_iff_exists'.mp h.callback
  refine ⟨by omega, by omega, ⟨op, 0, 0, 0, none⟩, ?_⟩
  simp only [Async.asyncProactorCallback, hsent, h.status hloop, h.live, hop]
  rfl

theorem sendStep {k : ℕ} {pc : SendPc} (h : x.Inv) (hcap : 0 < capacity)
    (hheld : x.holder = some (.sender k pc)) : (x.sendStep capacity k pc).Inv := by
  have hlocked := h.locked
  have hcredit := h.credit
  unfold Locked at hlocked
  unfold unreturned at hcredit
  rw [hheld] at hlocked hcredit
  cases pc with
  | test =>
    dsimp only at hlocked hcredit
    rw [AsyncThreads.sendStep]
    split
    · next hsent =>
      rw [if_pos hsent] at hlocked
      exact ⟨h.reading, h.live, h.callback, h.reported, h.status, nofun, ⟨rfl, hsent, hlocked⟩,
        h.due, hcredit.trans (Nat.le_succ _)⟩
    · next hsent =>
      rw [if_neg (by rw [h.reading]; decide)]
      rw [if_neg hsent] at hlocked
      exact ⟨h.reading, h.live, h.callback, h.reported, h.status, nofun,
        ⟨Bool.eq_false_of_not_eq_true hsent, hlocked⟩, h.due, hcredit⟩
  | write =>
    -- there is no token, so the pipe is empty and has room for the byte
    dsimp only at hcredit
    obtain ⟨hsent, htokens⟩ := hlocked
    have hempty : x.async.pipeBytes = 0 := by unfold tokens at htokens; omega
    have hloop : x.loop ≠ .completed := by
      intro hloop
      rw [tokens, if_pos hloop] at htokens
      omega
    rw [AsyncThreads.sendStep]
    rw [if_pos (by omega)]
    have hone : tokens { x with
        async := { x.async with pipeBytes := x.async.pipeBytes + 1 }
        holder := some (.sender k .set) } = 1 := by
      rw [tokens, if_neg hloop, hempty]
    refine ⟨h.reading, h.live, h.callback, fun _ ↦ Nat.succ_pos _, h.status, nofun, ⟨hsent, hone⟩,
      fun m hm ↦ ⟨(h.due m hm).1, .inr (.inl (Nat.succ_pos _))⟩, ?_⟩
    rw [hone]
    dsimp only [unreturned]
    omega
  | set =>
    obtain ⟨hsent, htokens⟩ := hlocked
    exact ⟨h.reading, h.live, h.callback, h.reported, h.status, nofun, ⟨rfl, rfl, htokens⟩, h.due,
      hcredit⟩
  | exit ret =>
    -- the call returns while there is a token, its own or an earlier one: a callback is due
    obtain ⟨rfl, hsent, htokens⟩ := hlocked
    rw [AsyncThreads.sendStep]
    rw [if_pos rfl]
    have hdue : x.Due := due_of_tokens (by omega)
    refine ⟨h.reading, h.live, h.callback, h.reported, h.status, nofun, ?_, fun m hm ↦ ?_, ?_⟩
    · exact htokens.trans (if_pos hsent).symm
    · rcases List.mem_append.mp hm with hm | hm
      · exact h.due m hm
      · obtain rfl := List.mem_singleton.mp hm
        exact ⟨le_rfl, .inr hdue⟩
    · rw [List.length_append, List.length_singleton]
      exact hcredit

theorem loopStep {b : Async} {p : DeliveryPc} {n : ℕ} (h : x.Inv) (hloop : x.loop ≠ .completed)
    (hreading : b.reading = x.async.reading) (hlive : b.deleted = x.async.deleted)
    (hcallback : b.onAsync = x.async.onAsync) (hsent : b.asyncSent = x.async.asyncSent)
    (hreported : p = .reported → 0 < b.pipeBytes) (hstatus : p = .completed → b.ctx.status = 0)
    (htokens : tokens { x with async := b, loop := p, calls := n } = x.tokens)
    (hcalls : n + (if p = .calling then 1 else 0) = x.calls + if x.loop = .calling then 1 else 0)
    (hdue : ∀ m ≤ x.calls, m < x.calls ∨ x.Due →
      m ≤ n ∧ (m < n ∨ Due { x with async := b, loop := p, calls := n })) :
    Inv { x with async := b, loop := p, calls := n } where
  reading := hreading.trans h.reading
  live := hlive.trans h.live
  callback := hcallback ▸ h.callback
  reported := hreported
  status := hstatus
  delivering := fun hh ↦ absurd (h.delivering hh) hloop
  locked := h.locked.congr rfl hsent htokens
  due := fun m hm ↦ hdue m (h.due m hm).1 (h.due m hm).2
  credit := by
    rw [htokens]
    show n + (if p = .calling then 1 else 0) + x.tokens ≤ x.sends.length + x.unreturned
    rw [hcalls]
    exact h.credit

end Inv

theorem Steps.inv (hstep : Steps capacity x a y) (hcap : 0 < capacity) (h : x.Inv) : y.Inv := by
  cases hstep with
  | lock hfree =>
    obtain ⟨hlocked, hcredit⟩ := h.of_free hfree
    exact ⟨h.reading, h.live, h.callback, h.reported, h.status, nofun, hlocked, h.due, hcredit⟩
  | send hheld => exact h.sendStep hcap hheld
  | report hloop hbyte =>
    refine h.loopStep (by rw [hloop]; decide) rfl rfl rfl rfl (fun _ ↦ hbyte) nofun ?_ ?_
      fun m hm _ ↦ ⟨hm, .inr (.inl hbyte)⟩
    · rw [tokens, tokens, hloop]; rfl
    · rw [hloop]; rfl
  | skip hloop =>
    refine h.loopStep (by rw [hloop]; decide) rfl rfl rfl rfl nofun nofun ?_ ?_
      fun m hm _ ↦ ⟨hm, .inr (.inl (h.reported hloop))⟩
    · rw [tokens, tokens, hloop]; rfl
    · rw [hloop]; rfl
  | @read sys hloop hk =>
    -- the pipe has a byte, which only the loop takes out
    have hbyte := h.reported hloop
    have hcb : x.async.reactorCb sys =
        { x.async with pipeBytes := x.async.pipeBytes - 1, ctx := ⟨0, 1⟩ } := by
      unfold Async.reactorKernel at hk
      unfold Async.reactorCb
      cases hio : sys.io with
      | done n => rfl
      | wouldBlock | failed =>
        rw [hio, decide_eq_true_eq] at hk
        omega
    rw [hcb]
    refine h.loopStep (by rw [hloop]; decide) rfl rfl rfl rfl nofun (fun _ ↦ rfl) ?_ ?_
      fun m hm _ ↦ ⟨hm, .inr (.inr (.inl rfl))⟩
    · rw [tokens, tokens, if_pos rfl, if_neg (by rw [hloop]; decide)]
      exact Nat.sub_add_cancel hbyte
    · rw [hloop]; rfl
  | deliver hloop hfree =>
    obtain ⟨hlocked, hcredit⟩ := h.of_free hfree
    exact ⟨h.reading, h.live, h.callback, h.reported, h.status, fun _ ↦ hloop, hlocked, h.due,
      hcredit⟩
  | clear hheld =>
    obtain ⟨hempty, hcredit, c, hcall⟩ := h.of_loop hheld
    rw [hcall, if_neg (List.cons_ne_nil _ _)]
    have htokens : tokens { x with
        async := x.async.asyncProactorCallback.1, holder := none, loop := .calling } = 0 := by
      rw [tokens, if_neg nofun]
      exact hempty
    refine ⟨rfl, h.live, h.callback, nofun, nofun, nofun, htokens,
      fun m hm ↦ ⟨(h.due m hm).1, .inr (.inr (.inr rfl))⟩, ?_⟩
    rw [htokens, if_pos rfl]
    exact hcredit
  | call hloop =>
    refine h.loopStep (by rw [hloop]; decide) rfl rfl rfl rfl nofun nofun ?_ ?_
      fun m hm _ ↦ ⟨hm.trans (Nat.le_succ _), .inl (Nat.lt_succ_of_le hm)⟩
    · rw [tokens, tokens, hloop]; rfl
    · rw [hloop]; rfl
  | callbackReturn hloop =>
    refine h.loopStep (by rw [hloop]; decide) rfl rfl rfl rfl nofun nofun ?_ ?_
      fun m hm hdue ↦ ⟨hm, hdue.imp_right ?_⟩
    · rw [tokens, tokens, hloop]; rfl
    · rw [hloop]; rfl
    · rintro (hbyte | hc | hc)
      · exact .inl hbyte
      · exact absurd (hloop.symm.trans hc) (by decide)
      · exact absurd (hloop.symm.trans hc) (by decide)

/-! ## A callback that is due starts -/

structure Coalesces (x : AsyncThreads) : Prop where
  one_byte : x.async.pipeBytes ≤ 1
  sent_iff : x.async.asyncSent = true ↔
    0 < x.async.pipeBytes ∨ x.loop = .completed ∧ x.async.ctx.status = 0
  delivered : ∀ m ∈ x.sends, m < x.calls ∨ x.Due
  calls_le : x.calls ≤ x.sends.length

theorem Inv.coalesces (h : x.Inv) (hfree : x.holder = none) : x.Coalesces := by
  obtain ⟨hlocked, hcredit⟩ := h.of_free hfree
  refine ⟨?_, ?_, fun m hm ↦ (h.due m hm).2, by omega⟩
  · unfold tokens at hlocked
    split at hlocked <;> split at hlocked <;> omega
  · constructor
    · intro hsent
      rw [if_pos hsent, tokens] at hlocked
      split at hlocked
      · next hloop => exact .inr ⟨hloop, h.status hloop⟩
      · exact .inl (by omega)
    · intro htoken
      by_contra hsent
      rw [if_neg hsent, tokens] at hlocked
      rcases htoken with hbyte | ⟨hloop, -⟩
      · omega
      · rw [if_pos hloop] at hlocked
        omega

def Action.byLoop : Action → Bool
  | .lock _ | .send _ => false
  | _ => true

def Starts (capacity : ℕ) (x : AsyncThreads) : Prop :=
  ∃ as y, Run (step capacity) (fun _ a ↦ a.byLoop = true) x as y ∧ y.calls = x.calls + 1

theorem Starts.cons (hloop : a.byLoop = true) (hstep : x.step capacity a = some y)
    (hcalls : y.calls = x.calls) (h : Starts capacity y) : Starts capacity x := by
  obtain ⟨as, z, hrun, hz⟩ := h
  exact ⟨a :: as, z, .cons hloop hstep hrun, hz.trans (congrArg (· + 1) hcalls)⟩

theorem starts_of_calling (hloop : x.loop = .calling) : Starts capacity x :=
  ⟨[.call], _, .single rfl (if_pos hloop), rfl⟩

namespace Inv

theorem starts_of_completed (h : x.Inv) (hcap : 0 < capacity) (hfree : x.holder = none)
    (hloop : x.loop = .completed) : Starts capacity x := by
  have hdeliver : x.step capacity .deliver = some { x with holder := some .loop } :=
    if_pos ⟨hloop, hfree⟩
  obtain ⟨-, -, c, hcall⟩ := ((step_eq_some hdeliver).inv hcap h).of_loop rfl
  have hclear : step capacity { x with holder := some .loop } .clear =
      some { x with
        async := x.async.asyncProactorCallback.1, holder := none
        loop := if x.async.asyncProactorCallback.2 = [] then .elsewhere else .calling } := rfl
  refine .cons rfl hdeliver rfl (.cons rfl hclear rfl (starts_of_calling ?_))
  rw [hcall]
  rfl

theorem starts_of_reported (h : x.Inv) (hcap : 0 < capacity) (hfree : x.holder = none)
    (hloop : x.loop = .reported) : Starts capacity x := by
  have hread : x.step capacity (.read (.ok 1)) =
      some { x with async := x.async.reactorCb (.ok 1), loop := .completed } :=
    if_pos ⟨hloop, decide_eq_true (h.reported hloop)⟩
  exact .cons rfl hread rfl
    (((step_eq_some hread).inv hcap h).starts_of_completed hcap hfree rfl)

theorem starts_of_byte (h : x.Inv) (hcap : 0 < capacity) (hfree : x.holder = none)
    (hloop : x.loop = .elsewhere) (hbyte : 0 < x.async.pipeBytes) : Starts capacity x := by
  have hreport : x.step capacity .report = some { x with loop := .reported } :=
    if_pos ⟨hloop, hbyte⟩
  exact .cons rfl hreport rfl
    (((step_eq_some hreport).inv hcap h).starts_of_reported hcap hfree rfl)

theorem starts_of_due (h : x.Inv) (hcap : 0 < capacity) (hfree : x.holder = none) (hdue : x.Due) :
    Starts capacity x := by
  rcases hdue with hbyte | hloop | hloop
  · cases hloop : x.loop with
    | elsewhere => exact h.starts_of_byte hcap hfree hloop hbyte
    | reported => exact h.starts_of_reported hcap hfree hloop
    | completed => exact h.starts_of_completed hcap hfree hloop
    | calling => exact starts_of_calling hloop
    | inCallback =>
      have hreturn : x.step capacity .callbackReturn = some { x with loop := .elsewhere } :=
        if_pos hloop
      exact .cons rfl hreturn rfl
        (((step_eq_some hreturn).inv hcap h).starts_of_byte hcap hfree rfl hbyte)
  · exact h.starts_of_completed hcap hfree hloop
  · exact starts_of_calling hloop

end Inv

/-! ## Notifications are not lost -/

/-- **Async notifications are not lost and coalesce**: whatever the threads and the loop do, from an
event that has been started, the state is consistent whenever the lock is free, and if a callback is
then due, the loop by itself starts one. -/
theorem coalesces_of_started {op : ℕ} {sys : Sys} {fresh : Fresh} {b : Async}
    {effects : List IoEffect} (hcap : 0 < capacity)
    (hstart : Async.asyncNew.nanoevAsyncStart op sys fresh = (b, effects, .success))
    (h : Reachable (step capacity) anyStep (init b) x) (hfree : x.holder = none) :
    x.Coalesces ∧ (x.Due → Starts capacity x) := by
  have hinv : x.Inv := h.invariant (init_inv hstart) fun y a z hy _ hstep ↦
    (step_eq_some hstep).inv hcap hy
  exact ⟨hinv.coalesces hfree, hinv.starts_of_due hcap hfree⟩

/-- The loop reads the byte of the first thread before the thread has set `async_sent`; the second
thread finds it set. -/
def sendTwice : List Action :=
  [.lock 0, .send 0, .send 0, .report, .read (.ok 1), .send 0, .send 0, .lock 1, .send 1, .send 1,
    .deliver, .clear, .call, .lock 1, .send 1, .send 1, .send 1, .send 1]

theorem coalesces_of_started_sendTwice :
    ∃ b effects x, Async.asyncNew.nanoevAsyncStart 0 (.ok 0) ⟨3, 1, 0⟩ = (b, effects, .success) ∧
      exec (step 512) anyStep (init b) sendTwice = some x ∧ x.holder = none ∧
      x.sends = [0, 0, 1] ∧ x.calls = 1 ∧ x.async.pipeBytes = 1 ∧ x.Coalesces ∧ Starts 512 x := by
  have hrun : ((exec (step 512) anyStep
      (init (Async.asyncNew.nanoevAsyncStart 0 (.ok 0) ⟨3, 1, 0⟩).1) sendTwice).map fun x ↦
      (x.holder, x.sends, x.calls, x.async.pipeBytes)) = some (none, [0, 0, 1], 1, 1) := by
    decide +kernel
  obtain ⟨x, hx, hfields⟩ := Option.map_eq_some_iff.mp hrun
  simp only [Prod.mk.injEq] at hfields
  obtain ⟨hfree, hsends, hcalls, hbytes⟩ := hfields
  have hstart : Async.asyncNew.nanoevAsyncStart 0 (.ok 0) ⟨3, 1, 0⟩ =
      (_, _, .success) := rfl
  obtain ⟨hcoalesces, hstarts⟩ : x.Coalesces ∧ (x.Due → Starts 512 x) :=
    coalesces_of_started (by decide) hstart (Reachable.of_exec hx) hfree
  exact ⟨_, _, x, hstart, hx, hfree, hsends, hcalls, hbytes, hcoalesces,
    hstarts (.inl (by rw [hbytes]; exact Nat.one_pos))⟩

end AsyncThreads

end Nanoev
