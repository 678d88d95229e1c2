import Nanoev.Transition.Simulation
import Nanoev.Threads.AsyncSend

/-!
# What an async event is for

An async event is a flag. Threads raise it by calling `nanoev_async_send`, and the loop takes it
down and calls `on_async` once for all the calls that have raised it since. `Notification` is that
flag with its callers and nothing else: no pipe, no lock, no bytes, and raising the flag is one step
that happens at some moment between the entry of the call and its return.

What can be observed is who enters `nanoev_async_send` and what it returns, and when `on_async` is
called. The event with its pipe and its lock, in which the critical section is taken apart and the
loop reads the pipe without the lock, has no other histories than the flag (`refines_notification`).
So the calls of `nanoev_async_send` are atomic for those who use it, and none is refused.
-/

namespace Nanoev

open Transition

/-- What the threads and the loop can observe of an async event. -/
inductive AsyncEvent
  | entered (thread : ℕ)
  | returned (thread : ℕ) (ret : RetCode)
  | called
deriving DecidableEq, Repr

inductive CallerPc
  | outside
  | entered
  /-- The call has had its effect and is about to return. -/
  | leaving (ret : RetCode)
deriving DecidableEq, Repr

/-- A flag, its callers, and whether the loop is about to call `on_async`. -/
@[ext] structure Notification where
  due : Bool
  taken : Bool
  caller : ℕ → CallerPc

namespace Notification

def init : Notification := ⟨false, false, fun _ ↦ .outside⟩

inductive Action
  | enter (thread : ℕ)
  /-- The call of a thread has its effect. -/
  | raise (thread : ℕ)
  /-- The call of a thread fails, and has none. -/
  | refuse (thread : ℕ) (ret : RetCode)
  | leave (thread : ℕ)
  /-- The loop takes the flag down. -/
  | take
  | call
deriving DecidableEq, Repr

def moves (x : Notification) (k : ℕ) (pc : CallerPc) : Notification :=
  { x with caller := Function.update x.caller k pc }

def step (x : Notification) : Action → Option Notification
  | .enter k => if x.caller k = .outside then some (x.moves k .entered) else none
  | .raise k =>
    if x.caller k = .entered then some { x.moves k (.leaving .success) with due := true } else none
  | .refuse k ret =>
    if x.caller k = .entered ∧ ret ≠ .success then some (x.moves k (.leaving ret)) else none
  | .leave k =>
    match x.caller k with
    | .leaving _ => some (x.moves k .outside)
    | _ => none
  | .take =>
    if x.due = true ∧ x.taken = false then some { x with due := false, taken := true } else none
  | .call => if x.taken = true then some { x with taken := false } else none

def observe (x : Notification) : Action → List AsyncEvent
  | .enter k => [.entered k]
  | .leave k =>
    match x.caller k with
    | .leaving ret => [.returned k ret]
    | _ => []
  | .call => [.called]
  | _ => []

def grants (_ : Notification) : Action → Prop
  | .refuse .. => False
  | _ => True

/-! ## One caller at a time -/

def callers : Option (ℕ × CallerPc) → ℕ → CallerPc
  | none => fun _ ↦ .outside
  | some (k, pc) => Function.update (fun _ ↦ .outside) k pc

def serial (due taken : Bool) (inside : Option (ℕ × CallerPc)) : Notification :=
  ⟨due, taken, callers inside⟩

section Serial

variable {ok : Notification → Action → Prop} {due taken : Bool} {inside : Option (ℕ × CallerPc)}
  {k : ℕ} {pc pc' : CallerPc} {ret : RetCode}

theorem caller_serial_self : (serial due taken (some (k, pc))).caller k = pc := by
  simp [serial, callers]

theorem serial_moves : (serial due taken (some (k, pc))).moves k pc' =
    serial due taken (some (k, pc')) :=
  Notification.ext rfl rfl (Function.update_idem ..)

theorem serial_moves_outside : (serial due taken (some (k, pc))).moves k .outside =
    serial due taken none :=
  Notification.ext rfl rfl ((Function.update_idem ..).trans (Function.update_eq_self ..))

theorem emits_enter (hok : ok (serial due taken none) (.enter k)) :
    Emits step observe ok (serial due taken none) [.entered k]
      (serial due taken (some (k, .entered))) :=
  .single hok rfl rfl

theorem emits_raise (hok : ok (serial due taken (some (k, .entered))) (.raise k)) :
    Emits step observe ok (serial due taken (some (k, .entered))) []
      (serial true taken (some (k, .leaving .success))) := by
  refine .single hok ?_ rfl
  rw [step, if_pos caller_serial_self, serial_moves]
  rfl

theorem emits_refuse (hok : ok (serial due taken (some (k, .entered))) (.refuse k ret))
    (hret : ret ≠ .success) : Emits step observe ok (serial due taken (some (k, .entered))) []
      (serial due taken (some (k, .leaving ret))) := by
  refine .single hok ?_ rfl
  rw [step, if_pos ⟨caller_serial_self, hret⟩, serial_moves]

theorem emits_leave (hok : ok (serial due taken (some (k, .leaving ret))) (.leave k)) :
    Emits step observe ok (serial due taken (some (k, .leaving ret))) [.returned k ret]
      (serial due taken none) := by
  refine .single hok ?_ ?_
  · simp only [step, caller_serial_self, serial_moves_outside]
  · simp only [observe, caller_serial_self]

theorem emits_take (hok : ok (serial true false inside) .take) :
    Emits step observe ok (serial true false inside) [] (serial false true inside) :=
  .single hok rfl rfl

theorem emits_call (hok : ok (serial due true inside) .call) :
    Emits step observe ok (serial due true inside) [.called] (serial due false inside) :=
  .single hok rfl rfl

end Serial

end Notification

namespace AsyncThreads

/-! ## The event with its pipe -/

def shown (k : ℕ) : SendPc → List AsyncEvent
  | .exit ret => [.returned k ret]
  | _ => []

/-- What an action shows. The entry of a call is shown when it has the lock, so the calls in a
history do not overlap. -/
def observe (x : AsyncThreads) : Action → List AsyncEvent
  | .lock k => [.entered k]
  | .send k =>
    match x.holder with
    | some (.sender _ pc) => shown k pc
    | _ => []
  | .call => [.called]
  | _ => []

/-- The call of a thread has its effect when the byte is in the pipe, or when `async_sent` was found
set. -/
def effectPc : SendPc → CallerPc
  | .test | .write => .entered
  | .set => .leaving .success
  | .exit ret => .leaving ret

def inside : Option LockHolder → Option (ℕ × CallerPc)
  | some (.sender thread pc) => some (thread, effectPc pc)
  | _ => none

/-- The flag that an event implements: it is up as long as there is a token. -/
def flag (x : AsyncThreads) : Notification :=
  .serial (decide (0 < x.tokens)) (decide (x.loop = .calling)) (inside x.holder)

/-! ## The event implements the flag -/

variable {capacity : ℕ} {x y : AsyncThreads} {a : Action} {k : ℕ}

/-- The flag goes from one state to another and shows `l`, without refusing a call. -/
abbrev Shows (n : Notification) (l : List AsyncEvent) (m : Notification) : Prop :=
  Emits Notification.step Notification.observe Notification.grants n l m

open Notification (serial emits_enter emits_raise emits_leave emits_take emits_call)

theorem flag_eq {due taken : Bool} {i : Option (ℕ × CallerPc)} (hdue : 0 < x.tokens ↔ due = true)
    (htaken : x.loop = .calling ↔ taken = true) (hinside : inside x.holder = i) :
    x.flag = serial due taken i := by
  have hdue' : decide (0 < x.tokens) = due := by rwa [Bool.eq_iff_iff, decide_eq_true_iff]
  have htaken' : decide (x.loop = .calling) = taken := by rwa [Bool.eq_iff_iff, decide_eq_true_iff]
  rw [flag, hinside, hdue', htaken']

/-- Steps that cannot be observed and change neither the tokens nor the callers. -/
theorem shows_nil (htokens : y.tokens = x.tokens) (hloop : y.loop = .calling ↔ x.loop = .calling)
    (hinside : inside y.holder = inside x.holder) : Shows x.flag [] y.flag := by
  have hflag : y.flag = x.flag := by simp only [flag, htokens, hloop, hinside]
  rw [hflag]
  exact .nil _

/-- The call of a thread has its effect: the flag is up afterwards. -/
theorem shows_raise {pc pc' : SendPc} (hx : x.holder = some (.sender k pc))
    (hy : y.holder = some (.sender k pc')) (hpc : effectPc pc = .entered)
    (hpc' : effectPc pc' = .leaving .success) (htokens : 0 < y.tokens) (hloop : y.loop = x.loop) :
    Shows x.flag [] y.flag := by
  rw [flag, flag, hx, hy, hloop, inside, inside, hpc, hpc', decide_eq_true htokens]
  exact emits_raise trivial

theorem shows_sendStep {pc : SendPc} (h : x.Inv) (hcap : 0 < capacity)
    (hheld : x.holder = some (.sender k pc)) :
    Shows x.flag (x.observe (.send k)) (x.sendStep capacity k pc).flag := by
  have hlocked := h.locked
  unfold Locked at hlocked
  rw [hheld] at hlocked
  have hobserve : x.observe (.send k) = shown k pc := by simp only [observe, hheld]
  rw [hobserve]
  cases pc with
  | test =>
    rw [sendStep]
    split
    · next hsent =>
      rw [if_pos hsent] at hlocked
      exact shows_raise hheld rfl rfl rfl (hlocked ▸ Nat.one_pos) rfl
    · rw [if_neg (by rw [h.reading]; decide)]
      exact shows_nil rfl Iff.rfl (by rw [hheld]; rfl)
  | write =>
    -- there is no token, so the pipe is empty and has room for the byte
    obtain ⟨-, htokens⟩ := hlocked
    have hempty : x.async.pipeBytes = 0 := by unfold tokens at htokens; omega
    rw [sendStep, if_pos (by omega)]
    exact shows_raise hheld rfl rfl rfl (Nat.add_pos_left (Nat.succ_pos _) _) rfl
  | set => exact shows_nil rfl Iff.rfl (by rw [hheld]; rfl)
  | exit ret =>
    rw [flag, hheld]
    exact emits_leave trivial

theorem reactorCb_of_byte {b : Async} {sys : Sys} (hbyte : 0 < b.pipeBytes)
    (hk : b.reactorKernel sys = true) :
    b.reactorCb sys = { b with pipeBytes := b.pipeBytes - 1, ctx := ⟨0, 1⟩ } := by
  unfold Async.reactorKernel at hk
  unfold Async.reactorCb
  cases hio : sys.io with
  | done n => rfl
  | wouldBlock | failed =>
    rw [hio, decide_eq_true_eq] at hk
    omega

theorem shows_clear (h : x.Inv) (hheld : x.holder = some .loop) :
    Shows x.flag [] (AsyncThreads.flag { x with
      async := x.async.asyncProactorCallback.1, holder := none
      loop := if x.async.asyncProactorCallback.2 = [] then .elsewhere else .calling }) := by
  obtain ⟨hempty, -, c, hcall⟩ := h.of_loop hheld
  have hloop := h.delivering hheld
  have hx : x.flag = serial true false none := by
    refine flag_eq ?_ (by simp [hloop]) (by rw [hheld]; rfl)
    simp [tokens, hloop]
  have hzero : (x.async.asyncProactorCallback.1).pipeBytes = 0 := hempty
  have hy : flag { x with
      async := x.async.asyncProactorCallback.1, holder := none, loop := .calling } =
      serial false true none := flag_eq (by simp [tokens, hzero]) (by simp) rfl
  rw [hx, hcall, if_neg (List.cons_ne_nil _ _), hy]
  exact emits_take trivial

/-- **An async event implements a flag.** -/
theorem simulation (hcap : 0 < capacity) :
    Simulation (step capacity) observe anyStep Notification.step Notification.observe
      Notification.grants fun x n ↦ x.Inv ∧ n = x.flag where
  step := by
    rintro x a y _ - hstep ⟨hinv, rfl⟩
    have hsteps := step_eq_some hstep
    refine ⟨y.flag, ?_, hsteps.inv hcap hinv, rfl⟩
    cases hsteps with
    | lock hfree =>
      rw [flag, hfree]
      exact emits_enter trivial
    | send hheld => exact shows_sendStep hinv hcap hheld
    | report hloop | skip hloop | callbackReturn hloop =>
      refine shows_nil ?_ (by simp [hloop]) rfl
      rw [tokens, tokens, hloop]
      rfl
    | read hloop hk =>
      refine shows_nil ?_ (by simp [hloop]) rfl
      rw [tokens, tokens, if_pos rfl, if_neg (by rw [hloop]; decide),
        reactorCb_of_byte (hinv.reported hloop) hk]
      exact Nat.sub_add_cancel (hinv.reported hloop)
    | deliver hloop hfree => exact shows_nil rfl Iff.rfl (by rw [hfree]; rfl)
    | clear hheld => exact shows_clear hinv hheld
    | call hloop =>
      have hy : flag { x with loop := .inCallback, calls := x.calls + 1 } =
          serial (decide (0 < x.tokens)) false (inside x.holder) :=
        flag_eq (by rw [tokens, tokens, hloop, decide_eq_true_iff]; rfl) (by simp) rfl
      rw [flag, decide_eq_true hloop, hy]
      exact emits_call trivial

theorem pipeBytes_nanoevAsyncStart (b : Async) (op : ℕ) (sys : Sys) (fresh : Fresh) :
    (b.nanoevAsyncStart op sys fresh).1.pipeBytes = b.pipeBytes := by
  unfold Async.nanoevAsyncStart
  split
  · rfl
  · dsimp only
    split
    · rfl
    · split
      · rfl
      · rfl
      · split <;> rfl

/-- **`nanoev_async_send` is atomic**: whatever the threads and the loop do with an event that has
been started, the history of calls, returns and callbacks is one of the flag, and no call is
refused. -/
theorem refines_notification {op : ℕ} {sys : Sys} {fresh : Fresh} {b : Async}
    {effects : List IoEffect} (hcap : 0 < capacity)
    (hstart : Async.asyncNew.nanoevAsyncStart op sys fresh = (b, effects, .success)) :
    Refines (step capacity) observe anyStep (init b) Notification.step Notification.observe
      Notification.grants .init := by
  refine (simulation hcap).refines ⟨init_inv hstart, ?_⟩
  have hempty : b.pipeBytes = 0 := by
    have hb := pipeBytes_nanoevAsyncStart .asyncNew op sys fresh
    rwa [hstart] at hb
  have hflag : (init b).flag = serial false false none :=
    flag_eq (by simp [tokens, init, hempty]) (by simp [init]) rfl
  exact hflag.symm

/-- The run in which the loop reads the byte before `async_sent` is set. -/
theorem refines_notification_sendTwice :
    ∃ x, Emits (step 512) observe anyStep
        (init (Async.asyncNew.nanoevAsyncStart 0 (.ok 0) ⟨3, 1, 0⟩).1)
        [.entered 0, .returned 0 .success, .entered 1, .returned 1 .success, .called, .entered 1,
          .returned 1 .success] x ∧
      Refines (step 512) observe anyStep
        (init (Async.asyncNew.nanoevAsyncStart 0 (.ok 0) ⟨3, 1, 0⟩).1) Notification.step
        Notification.observe Notification.grants .init := by
  have hstart : Async.asyncNew.nanoevAsyncStart 0 (.ok 0) ⟨3, 1, 0⟩ = (_, _, .success) := rfl
  have hrun : (exec (recording (step 512) observe) (fun x a ↦ anyStep x.1 a)
      (init (Async.asyncNew.nanoevAsyncStart 0 (.ok 0) ⟨3, 1, 0⟩).1, []) sendTwice).map Prod.snd =
      some [.entered 0, .returned 0 .success, .entered 1, .returned 1 .success, .called, .entered 1,
        .returned 1 .success] := by
    decide +kernel
  obtain ⟨x, hx⟩ := Emits.of_exec hrun
  exact ⟨x, hx, refines_notification (by decide) hstart⟩

end AsyncThreads

end Nanoev
