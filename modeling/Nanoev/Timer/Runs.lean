import Nanoev.Timer.LoopInvariant
import Mathlib.Algebra.BigOperators.Group.List.Basic

/-!
# Timers across several runs of a loop

A loop may be run, stopped and run again. Between two runs its cached clock stands still, and at the
entry of a run `nanoev_loop_run` overwrites it before `__update_time` can compare. So the two
properties that timers have within a run depend, across runs, on where the clock stands when
something happens outside:

* a timer that is armed while the loop is stopped gets an expiry counted from the cached clock,
  which is the time of the call only if the loop has never run or no time has passed
  (`armedFresh`), and only if the sum fits into 64 bits (`armedFits`);
* a clock that has gone backward is noticed only within a run, so that an entry with an earlier
  reading lengthens the timers that are pending (`entersForward`).

`EffectBy.armed_spec` says what a step makes of the expiry of one node, with either addition. The
two results follow from it.
-/

namespace Nanoev

namespace TimerLoop

open TimerMinHeap Transition

/-- The reading that an action writes to the cached clock. -/
def Action.sets : Action → Option Timeval.Reading
  | .runEnter clock | .updateTime clock => some clock
  | _ => none

/-- The node that an action is to arm, with the delay and the reading of the clock at the call. -/
def Action.arms : Action → Option (NodeRef × Timeval × Timeval.Reading)
  | .timerAdd t after _ _ clock _ => some (.timer t, after, clock)
  | .tcpTimeoutAdd e write after clock _ => some (.tcp e write, after, clock)
  | _ => none

/-- The reading of the system clock that comes with an action. -/
def Action.reading : Action → Option Timeval.Reading
  | .timerAdd _ _ _ _ clock _ | .tcpTimeoutAdd _ _ _ clock _ | .runEnter clock | .updateTime clock
  | .callbackReturn clock => some clock
  | _ => none

variable {s s' : TimerLoop} {a : Action} {n m : NodeRef} {tv after : Timeval}
  {clock : Timeval.Reading} {add : Timeval → Timeval → Timeval}

/-! ## One step and one node -/

/-- What a step that does not set the clock makes of the expiry of a node: it is kept, or removed,
or the node is armed by a call or as a repeating timer. -/
def ArmedSpec (add : Timeval → Timeval → Timeval) (s : TimerLoop) (a : Action) (n : NodeRef)
    (s' : TimerLoop) : Prop :=
  s'.timers.armed n = s.timers.armed n ∨ s'.timers.armed n = none ∨
    (s.timers.armed n = none ∧ ∃ after clock,
      s'.timers.armed n = some (add (s.loopNow clock) after) ∧
        (a.arms = some (n, after, clock) ∨ a.arms = none))

theorem ArmedSpec.of_erase (harmed : s'.timers.armed = Function.update s.timers.armed m none)
    (n : NodeRef) : ArmedSpec add s a n s' := by
  rw [ArmedSpec, harmed]
  by_cases hn : n = m
  · subst hn
    exact Or.inr (Or.inl (Function.update_self ..))
  · exact Or.inl (Function.update_of_ne hn ..)

theorem ArmedSpec.of_arm (hm : m ∉ s.timers.activeNodes)
    (harmed : s'.timers.armed =
      Function.update s.timers.armed m (some (add (s.loopNow clock) after)))
    (ha : a.arms = some (m, after, clock) ∨ a.arms = none) (n : NodeRef) :
    ArmedSpec add s a n s' := by
  rw [ArmedSpec, harmed]
  by_cases hn : n = m
  · subst hn
    exact Or.inr (Or.inr ⟨armed_eq_none_iff.mpr hm, after, clock, Function.update_self .., ha⟩)
  · exact Or.inl (Function.update_of_ne hn ..)

theorem EffectBy.armed_spec (hs : s.Inv) (hE : EffectBy add s a s') (ha : a.sets = none)
    (n : NodeRef) :
    s'.now = s.now ∧ ArmedSpec add s a n s' := by
  cases hE with
  | timerNew hnone =>
    exact ⟨rfl, Or.inl (congrFun (armed_timerNodeInit hs.heap (hs.not_mem_of_none hnone)) n)⟩
  | addRefused | delInvoking | delRefused | tcpAddRefused | processed | returnDeleted | returned
  | tcpReturn | poll | nextIteration | runExit => exact ⟨rfl, Or.inl rfl⟩
  | addFailed hτ hdel hn | tcpAddFailed hn =>
    exact ⟨rfl, Or.inl (congrFun (armed_setTimeout hn _) n)⟩
  | added hτ hdel hn | tcpAdded hn =>
    exact ⟨rfl, .of_arm hn (armed_pushLast hs.heap hn _ _) (Or.inl rfl) n⟩
  | deleted | freeInvoking | freed | tcpDel | firedTimer | firedTcp =>
    exact ⟨rfl, .of_erase (armed_erase hs _) n⟩
  | runEnter | updateTime => cases ha
  | reinserted hc hτ hdel hrep hn =>
    exact ⟨rfl, .of_arm hn (armed_pushLast hs.heap hn _ _) (Or.inr rfl) n⟩

/-- The action arms the node with the delay `after`: a call does, or the return from the callback of
a repeating timer. -/
def Arms (s : TimerLoop) (a : Action) (n : NodeRef) (after : Timeval) (clock : Timeval.Reading) :
    Prop :=
  a.arms = some (n, after, clock) ∨
    ∃ t τ, n = .timer t ∧ s.control = .timerCallback t ∧ s.timer t = some τ ∧ τ.after = after ∧
      a = .callbackReturn clock

/-- A node that becomes armed gets the loop time plus an accepted delay as its expiry. -/
theorem EffectBy.newly_armed (hs : s.Inv) (hE : EffectBy add s a s')
    (hoff : s.timers.armed n = none)
    (hon : s'.timers.armed n = some tv) :
    ∃ after clock, Arms s a n after clock ∧ a.reading = some clock ∧ after.Normalized ∧
      tv = add (s.loopNow clock) after := by
  have hkept : s'.timers.armed n ≠ s.timers.armed n := by
    rw [hoff, hon]
    exact Option.some_ne_none tv
  have herased : ∀ m, s'.timers.armed ≠ Function.update s.timers.armed m none := by
    intro m heq
    rw [heq, Function.update_apply, hoff, ite_self] at hon
    cases hon
  -- an update at one node: it is this node that was armed
  have hupdated : ∀ {m expires}, s'.timers.armed = Function.update s.timers.armed m (some expires) →
      m = n ∧ expires = tv := by
    intro m expires heq
    rw [heq, Function.update_apply] at hon
    split_ifs at hon with hnm
    · exact ⟨hnm.symm, Option.some.inj hon⟩
    · rw [hoff] at hon
      cases hon
  cases hE with
  | timerNew hnone =>
    exact absurd (congrFun (armed_timerNodeInit hs.heap (hs.not_mem_of_none hnone)) n) hkept
  | addFailed _ _ hn | tcpAddFailed hn => exact absurd (congrFun (armed_setTimeout hn _) n) hkept
  | added _ _ hn hafter | tcpAdded hn hafter =>
    obtain ⟨rfl, rfl⟩ := hupdated (armed_pushLast hs.heap hn _ _)
    exact ⟨_, _, Or.inl rfl, rfl, hafter, rfl⟩
  | deleted | freeInvoking | freed | tcpDel | firedTimer | firedTcp =>
    exact absurd (armed_erase hs _) (herased _)
  | @updateTime clock =>
    have heq := armed_updateTime hs clock n
    rw [hoff, Option.map_none] at heq
    exact absurd (heq.trans hoff.symm) hkept
  | reinserted hc hτ _ _ hn =>
    obtain ⟨rfl, rfl⟩ := hupdated (armed_pushLast hs.heap hn _ _)
    exact ⟨_, _, Or.inr ⟨_, _, rfl, hc, hτ, rfl, rfl⟩, rfl, hs.after _ _ hτ, rfl⟩
  | _ => exact absurd rfl hkept

/-- A step that sets the clock: at the entry of a run the expiries are left alone, `__update_time`
shifts them. -/
theorem EffectBy.armed_of_sets (hs : s.Inv) (hE : EffectBy add s a s') (ha : a.sets = some clock)
    (n : NodeRef) :
    s'.now = clock.1 ∧
      ((a = .runEnter clock ∧ s'.timers.armed n = s.timers.armed n) ∨
        (a = .updateTime clock ∧
          s'.timers.armed n = (s.timers.armed n).map (shifted s.now clock.1))) := by
  cases hE with
  | runEnter =>
    obtain rfl := Option.some.inj ha
    exact ⟨rfl, Or.inl ⟨rfl, rfl⟩⟩
  | updateTime =>
    obtain rfl := Option.some.inj ha
    exact ⟨rfl, Or.inr ⟨rfl, armed_updateTime hs _ n⟩⟩
  | _ => cases ha

theorem EffectBy.expired_of_fired (hs : s.Inv) (hE : EffectBy add s .processTurn s')
    (hlog : s'.log = .fired n :: s.log) (harmed : s.timers.armed n = some tv) :
    tv.micros ≤ s.now.micros := by
  obtain ⟨tv', harmed', hexp⟩ := hE.armed_of_fired hlog
  rw [harmed'] at harmed
  obtain rfl := Option.some.inj harmed
  exact (Timeval.key_le_iff_micros (hs.proper n tv' harmed') hs.now.proper).mp hexp

/-! ## Backward jumps of the clock -/

/-- A run is entered with a reading before the cached clock only if no timer is pending. -/
def entersForward (s : TimerLoop) : Action → Bool
  | .runEnter clock => !decide (timeCmp clock.1 s.now < 0) || decide (s.timers.size = 0)
  | _ => true

def forward (s : TimerLoop) (a : Action) : List ℤ :=
  match a.sets with
  | some clock => [max 0 (clock.1.micros - s.now.micros)]
  | none => []

def keepsArmed (n : NodeRef) (s : TimerLoop) (a : Action) : Bool :=
  match step s a with
  | some s' => s'.timers.timerNodeActive n
  | none => false

/-- The time that is left to an expiry shrinks by the forward movement of the clock. -/
def Shrinks (n : NodeRef) (s : TimerLoop) (moved : ℤ) (s' : TimerLoop) : Prop :=
  ∀ tv, s.timers.armed n = some tv → ∃ tv', s'.timers.armed n = some tv' ∧
    tv'.micros - s'.now.micros = tv.micros - s.now.micros - moved

/-- **One step**: the time that is left to the expiry of a node that stays armed. -/
theorem Effect.shrinks (hs : s.Inv) (hE : Effect s a s') (hok : s.entersForward a = true)
    (hactive : s'.timers.timerNodeActive n = true) : Shrinks n s (s.forward a).sum s' := by
  intro tv harmed
  have hsome : s'.timers.armed n ≠ none := by
    rw [timerNodeActive_eq, Option.isSome_iff_ne_none] at hactive
    exact hactive
  cases ha : a.sets with
  | none =>
    obtain ⟨hnow, hsame | hnone | ⟨hnone, -⟩⟩ := hE.armed_spec hs ha n
    · refine ⟨tv, hsame.trans harmed, ?_⟩
      rw [forward, ha, hnow, List.sum_nil, sub_zero]
    · exact absurd hnone hsome
    · rw [harmed] at hnone
      cases hnone
  | some clock =>
    have hsum : (s.forward a).sum = max 0 (clock.1.micros - s.now.micros) := by
      rw [forward, ha, List.sum_singleton]
    rw [hsum]
    obtain ⟨hnow, ⟨rfl, hsame⟩ | ⟨rfl, hshift⟩⟩ := hE.armed_of_sets hs ha n
    · refine ⟨tv, hsame.trans harmed, ?_⟩
      -- a timer is pending, so the reading is not before the cached clock
      have hsize : s.timers.size ≠ 0 := by
        intro hsize
        rw [armed_of_size_eq_zero hs.heap hsize] at harmed
        cases harmed
      rw [entersForward, Bool.or_eq_true, Bool.not_eq_true', decide_eq_false_iff_not,
        decide_eq_true_iff] at hok
      have hle := hok.resolve_right hsize
      rw [timeCmp_neg_iff, Timeval.key_lt_iff_micros clock.2.proper hs.now.proper] at hle
      rw [hnow, max_eq_right (by omega)]
      omega
    · refine ⟨shifted s.now clock.1 tv, by rw [hshift, harmed, Option.map_some], ?_⟩
      rw [hnow, micros_shifted hs.now.proper clock.2.proper]
      rcases le_total s.now.micros clock.1.micros with hle | hle
      · rw [max_eq_left (by omega), max_eq_right (by omega)]
        omega
      · rw [max_eq_right (by omega), max_eq_left (by omega)]
        omega

/-- **Backward jumps do not lengthen a timer.** Over any number of runs of the loop, the time that
is left to a pending timer shrinks by exactly the forward movement of the clock, if no run is
entered with an earlier reading while timers are pending. -/
theorem remaining_of_run {as : List Action} {l : List ℤ} (h₀ : Reachable step anyStep init s)
    (h : Run (recording step forward)
      (fun x a ↦ x.1.entersForward a = true ∧ keepsArmed n x.1 a = true) (s, []) as (s', l))
    (harmed : s.timers.armed n = some tv) :
    ∃ tv', s'.timers.armed n = some tv' ∧
      tv'.micros - s'.now.micros = tv.micros - s.now.micros - l.sum := by
  have hrun : s'.Inv ∧ Shrinks n s l.sum s' := by
    refine h.invariant (I := fun x ↦ x.1.Inv ∧ Shrinks n s x.2.sum x.1) ?_
      ⟨inv_of_reachable h₀, fun tv harmed ↦ ⟨tv, harmed, (sub_zero _).symm⟩⟩
    rintro ⟨s₁, l₁⟩ a ⟨s₂, l₂⟩ ⟨hs, hshrinks⟩ ⟨hok, hkeep⟩ hstep
    obtain ⟨hstep, rfl⟩ := recording_eq_some hstep
    have hE := step_effect hs hstep
    rw [keepsArmed, show step s₁ a = some s₂ from hstep] at hkeep
    refine ⟨hE.inv hs, fun tv harmed ↦ ?_⟩
    obtain ⟨tv₁, harmed₁, heq₁⟩ := hshrinks tv harmed
    obtain ⟨tv₂, harmed₂, heq₂⟩ := hE.shrinks hs hok hkeep tv₁ harmed₁
    refine ⟨tv₂, harmed₂, ?_⟩
    rw [List.sum_append, heq₂, heq₁]
    ring
  exact hrun.2 tv harmed

def leavePending : List Action :=
  [.timerNew 0, .runEnter (.ofSec 100), .updateTime (.ofSec 100), .processTurn, .poll,
    .timerAdd 0 ⟨50, 0⟩ false 0 (.ofSec 100) true, .runExit]

/-- The clock goes back within the second run, and forward again. -/
def jumpInRun : List Action :=
  [.runEnter (.ofSec 110), .updateTime (.ofSec 110), .processTurn, .poll, .nextIteration,
    .updateTime (.ofSec 30), .processTurn, .poll, .nextIteration, .updateTime (.ofSec 35)]

theorem remaining_of_run_jumpInRun :
    ∃ s s' l tv', Reachable step anyStep init s ∧ s.timers.armed (.timer 0) = some ⟨150, 0⟩ ∧
      Run (recording step forward)
        (fun x a ↦ x.1.entersForward a = true ∧ keepsArmed (.timer 0) x.1 a = true) (s, [])
          jumpInRun
        (s', l) ∧
      s'.timers.armed (.timer 0) = some tv' ∧
      tv'.micros - s'.now.micros = (⟨150, 0⟩ : Timeval).micros - s.now.micros - l.sum := by
  have hrun : ((exec step anyStep init leavePending).bind fun s ↦
      (exec (recording step forward)
        (fun x a ↦ x.1.entersForward a = true ∧ keepsArmed (.timer 0) x.1 a = true) (s, [])
        jumpInRun).map fun _ ↦ s.timers.armed (.timer 0)) = some (some ⟨150, 0⟩) := by
    decide +kernel
  obtain ⟨s, hexec, hmap⟩ := Option.bind_eq_some_iff.mp hrun
  obtain ⟨⟨s', l⟩, hexec', harmed⟩ := Option.map_eq_some_iff.mp hmap
  have hreach := Reachable.of_exec hexec
  obtain ⟨tv', harmed', heq⟩ := remaining_of_run hreach (Run.of_exec hexec') harmed
  exact ⟨s, s', l, tv', hreach, harmed, Run.of_exec hexec', harmed', heq⟩

/-- A run is entered 60 seconds before the clock that the previous run has cached: the pending timer
is left where it was, and takes 60 seconds longer. -/
theorem exists_lengthened_by_jump :
    ∃ (s s' : TimerLoop) (tv : Timeval) (clock : Timeval.Reading),
      Reachable step anyStep init s ∧ s.control = .idle ∧ s.timers.armed (.timer 0) = some tv ∧
      clock.1.micros < s.now.micros ∧
      Run step anyStep s [.runEnter clock, .updateTime clock] s' ∧
      s'.timers.armed (.timer 0) = some tv ∧
      tv.micros - s'.now.micros = tv.micros - s.now.micros + 60000000 := by
  have hrun : ((exec step anyStep init leavePending).bind fun s ↦
      (exec step anyStep s [.runEnter (.ofSec 40), .updateTime (.ofSec 40)]).map fun s' ↦
        (s.control, s.timers.armed (.timer 0), s.now, s'.timers.armed (.timer 0), s'.now)) =
      some (.idle, some ⟨150, 0⟩, ⟨100, 0⟩, some ⟨150, 0⟩, ⟨40, 0⟩) := by decide +kernel
  obtain ⟨s, hexec, hmap⟩ := Option.bind_eq_some_iff.mp hrun
  obtain ⟨s', hexec', heq⟩ := Option.map_eq_some_iff.mp hmap
  simp only [Prod.mk.injEq] at heq
  obtain ⟨hc, harmed, hnow, harmed', hnow'⟩ := heq
  refine ⟨s, s', ⟨150, 0⟩, .ofSec 40, Reachable.of_exec hexec, hc, harmed, ?_, Run.of_exec hexec',
    harmed', ?_⟩
  · rw [hnow]
    decide
  · rw [hnow, hnow']
    decide

/-! ## Timers armed while the loop is stopped -/

/-- The loop with the real time of the last reading, and the real time before which a timer that was
armed outside a run must not be fired. -/
structure Watched where
  loop : TimerLoop
  clock : ℤ
  due : ℕ → Option ℤ

namespace Watched

def init : Watched := ⟨TimerLoop.init, 0, fun _ ↦ none⟩

/-- The timer that an action arms outside a run, with the delay and the reading of the clock at the
call; the loop is then in the state `s'`. -/
def armsOutside (w : Watched) (s' : TimerLoop) : Action → Option (ℕ × Timeval × Timeval.Reading)
  | .timerAdd t after _ _ clock _ =>
    if w.loop.control = .idle ∧ w.loop.timers.timerNodeActive (.timer t) = false ∧
      s'.timers.timerNodeActive (.timer t) = true
    then some (t, after, clock) else none
  | _ => none

/-- A timer that an action arms outside a run is due after the delay; a timer that is not armed any
more is not due at all. -/
def dueAfter (w : Watched) (a : Action) (s' : TimerLoop) (t : ℕ) : Option ℤ :=
  if s'.timers.timerNodeActive (.timer t) = false then none
  else
    match w.armsOutside s' a with
    | some (u, after, clock) =>
      if u = t then some (clock.1.micros + after.micros) else w.due t
    | none => w.due t

def step (w : Watched) (a : Action) : Option Watched :=
  (TimerLoop.step64 w.loop a).map fun s' ↦
    ⟨s', (a.reading.map fun c ↦ c.1.micros).getD w.clock, w.dueAfter a s'⟩

def monotone (w : Watched) (a : Action) : Bool := a.reading.all fun c ↦ w.clock ≤ c.1.micros

def arming (w : Watched) (a : Action) : Option (ℕ × Timeval × Timeval.Reading) :=
  (TimerLoop.step64 w.loop a).bind fun s' ↦ w.armsOutside s' a

/-- A timer is armed outside a run only when the loop has not cached a time, or has just done so. -/
def armedFresh (w : Watched) (a : Action) : Bool :=
  (w.arming a).all fun x ↦ w.loop.now = ⟨0, 0⟩ || w.loop.now = x.2.2.1

/-- The expiry of a timer that is armed outside a run fits into 64 bits. -/
def armedFits (w : Watched) (a : Action) : Bool :=
  (w.arming a).all fun x ↦ timeAddFits x.2.2.1 x.2.1

structure Inv (w : Watched) : Prop where
  loop : w.loop.Inv
  now_le : w.loop.now.micros ≤ w.clock
  due : ∀ t x, w.due t = some x →
    ∃ tv, w.loop.timers.armed (.timer t) = some tv ∧ x ≤ tv.micros

variable {w w' : Watched} {t : ℕ}

theorem armsOutside_eq_some {x : ℕ × Timeval × Timeval.Reading}
    (h : w.armsOutside s' a = some x) :
    a.arms = some (.timer x.1, x.2.1, x.2.2) ∧ w.loop.timers.armed (.timer x.1) = none ∧
      (s'.timers.armed (.timer x.1)).isSome = true := by
  cases a with
  | timerAdd t after repeats callback clock alloc =>
    obtain ⟨⟨-, hoff, hon⟩, heq⟩ := Option.ite_none_right_eq_some.mp h
    obtain rfl := Option.some.inj heq
    rw [timerNodeActive_eq] at hoff hon
    exact ⟨rfl, Option.isNone_iff_eq_none.mp (Option.isSome_eq_false_iff.mp hoff), hon⟩
  | _ => cases h

/-- The expiry of a timer that is armed outside a run is the real time plus the delay. -/
theorem expiry_of_armsOutside (hw : w.Inv) (hstep : TimerLoop.step64 w.loop a = some s')
    {x : ℕ × Timeval × Timeval.Reading} (h : w.armsOutside s' a = some x)
    (hfresh : w.armedFresh a = true) (hfits : w.armedFits a = true) :
    ∃ tv, s'.timers.armed (.timer x.1) = some tv ∧
      tv.micros = x.2.2.1.micros + x.2.1.micros := by
  obtain ⟨harms, hoff, hon⟩ := armsOutside_eq_some h
  obtain ⟨tv, hon⟩ := Option.isSome_iff_exists.mp hon
  have harming : w.arming a = some x := by rw [arming, hstep, Option.bind_some, h]
  rw [armedFresh, harming, Option.all_some] at hfresh
  rw [armedFits, harming, Option.all_some] at hfits
  obtain ⟨after, clock, harms', -, hafter, rfl⟩ :=
    (step64_effect hw.loop hstep).newly_armed hw.loop hoff hon
  obtain ⟨rfl, rfl⟩ : x.2.1 = after ∧ x.2.2 = clock := by
    rcases harms' with harms' | ⟨t, τ, -, -, -, -, rfl⟩
    · simpa [Prod.ext_iff] using harms.symm.trans harms'
    · cases harms
  refine ⟨_, hon, ?_⟩
  have hnow : w.loop.loopNow x.2.2 = x.2.2.1 := by
    unfold loopNow
    split_ifs with hne
    · rw [Bool.or_eq_true, decide_eq_true_iff, decide_eq_true_iff] at hfresh
      exact hfresh.resolve_left (Timeval.ne_zero_iff.mpr hne)
    · rfl
  rw [hnow, timeAdd64_eq x.2.2.2 hafter hfits, micros_timeAdd]

/-- A timer that is due after a step is armed after it, and was due before or is armed outside a
run. -/
theorem dueAfter_eq_some {x : ℤ} (h : w.dueAfter a s' t = some x) :
    s'.timers.armed (.timer t) ≠ none ∧
      (w.due t = some x ∨ ∃ after clock, w.armsOutside s' a = some (t, after, clock) ∧
        x = clock.1.micros + after.micros) := by
  obtain ⟨hactive, hx⟩ := Option.ite_none_left_eq_some.mp h
  constructor
  · rw [Bool.not_eq_false, timerNodeActive_eq, Option.isSome_iff_ne_none] at hactive
    exact hactive
  · split at hx
    · next u after clock harms =>
      split_ifs at hx with hu
      · subst hu
        exact Or.inr ⟨after, clock, harms, (Option.some.inj hx).symm⟩
      · exact Or.inl hx
    · exact Or.inl hx

/-- The expiry of a node that stays armed is not moved by a clock that does not go backward. -/
theorem expiry_kept_of_forward (hs : s.Inv) (hE : EffectBy add s a s')
    (hclock : ∀ clock, a.sets = some clock → s.now.micros ≤ clock.1.micros)
    (harmed : s.timers.armed n = some tv) (hsome : s'.timers.armed n ≠ none) :
    ∃ tv', s'.timers.armed n = some tv' ∧ tv'.micros = tv.micros := by
  cases ha : a.sets with
  | none =>
    obtain ⟨-, hsame | hnone | ⟨hnone, -⟩⟩ := hE.armed_spec hs ha n
    · exact ⟨tv, hsame.trans harmed, rfl⟩
    · exact absurd hnone hsome
    · rw [harmed] at hnone
      cases hnone
  | some clock =>
    have hle := hclock clock ha
    obtain ⟨-, ⟨-, hsame⟩ | ⟨-, hshift⟩⟩ := hE.armed_of_sets hs ha n
    · exact ⟨tv, hsame.trans harmed, rfl⟩
    · refine ⟨shifted s.now clock.1 tv, by rw [hshift, harmed, Option.map_some], ?_⟩
      rw [micros_shifted hs.now.proper clock.2.proper, max_eq_left (by omega), sub_zero]

/-- **One step** under a clock that does not go backward. -/
theorem Inv.step (hw : w.Inv) (hmono : w.monotone a = true) (hfresh : w.armedFresh a = true)
    (hfits : w.armedFits a = true) (h : w.step a = some w') : w'.Inv := by
  obtain ⟨s', hstep, rfl⟩ := Option.map_eq_some_iff.mp h
  have hs := hw.loop
  have hE := step64_effect hs hstep
  have hclock : ∀ c, a.reading = some c → w.clock ≤ c.1.micros := by
    intro c hc
    rw [monotone, hc, Option.all_some, decide_eq_true_iff] at hmono
    exact hmono
  have hsets : ∀ c, a.sets = some c → a.reading = some c := by
    intro c hc
    cases a <;> first | exact hc | cases hc
  refine ⟨inv_of_step64 hs hstep, ?_, fun t x hx ↦ ?_⟩
  · dsimp only
    cases ha : a.sets with
    | none =>
      rw [(hE.armed_spec hs ha default).1]
      cases hr : a.reading with
      | none => exact hw.now_le
      | some c => exact hw.now_le.trans (hclock c hr)
    | some clock =>
      rw [hsets clock ha, (hE.armed_of_sets hs ha default).1]
      exact le_rfl
  · obtain ⟨hsome, hold | ⟨after, clock, harms, rfl⟩⟩ := dueAfter_eq_some hx
    · obtain ⟨tv, harmed, hle⟩ := hw.due t x hold
      have hforward : ∀ c, a.sets = some c → w.loop.now.micros ≤ c.1.micros :=
        fun c hc ↦ hw.now_le.trans (hclock c (hsets c hc))
      obtain ⟨tv', harmed', hmicros⟩ := expiry_kept_of_forward hs hE hforward harmed hsome
      exact ⟨tv', harmed', hmicros.symm ▸ hle⟩
    · obtain ⟨tv, harmed, hmicros⟩ := expiry_of_armsOutside hw hstep harms hfresh hfits
      exact ⟨tv, harmed, hmicros.ge⟩

/-- The real clock does not go backward, and what is armed outside a run is armed with a fresh clock
and a sum that fits. -/
def tame (w : Watched) (a : Action) : Prop :=
  w.monotone a = true ∧ w.armedFresh a = true ∧ w.armedFits a = true

instance (w : Watched) (a : Action) : Decidable (w.tame a) :=
  inferInstanceAs (Decidable (_ ∧ _ ∧ _))

/-- **Timers armed while the loop is stopped are not fired early**, under a real clock that does not
go backward, if they are armed only while the cached clock is unset or shows the real time and the
real time plus the delay fits into 64 bits. -/
theorem not_fired_early {s₁ : TimerLoop} {x : ℤ} (h : Reachable Watched.step tame init w)
    (hturn : TimerLoop.step64 w.loop .processTurn = some s₁)
    (hlog : s₁.log = .fired (.timer t) :: w.loop.log) (hdue : w.due t = some x) :
    x ≤ w.loop.now.micros := by
  have hw : w.Inv := h.invariant ⟨init_inv, le_rfl, nofun⟩
    fun _ _ _ hw hok hstep ↦ hw.step hok.1 hok.2.1 hok.2.2 hstep
  obtain ⟨tv, harmed, hle⟩ := hw.due t x hdue
  have hexp := (step64_effect hw.loop hturn).expired_of_fired hw.loop hlog harmed
  omega

/-- A timer is armed before the first run, and fires in time. -/
def armFirst : List Action :=
  [.timerNew 0, .timerAdd 0 ⟨5, 0⟩ false 0 (.ofSec 200) true, .runEnter (.ofSec 201),
    .updateTime (.ofSec 206)]

theorem not_fired_early_armFirst :
    ∃ w s₁, Reachable Watched.step tame init w ∧
      TimerLoop.step64 w.loop .processTurn = some s₁ ∧ s₁.log = .fired (.timer 0) :: w.loop.log ∧
      w.due 0 = some 205000000 ∧ 205000000 ≤ w.loop.now.micros := by
  have hrun : ((exec Watched.step tame init armFirst).bind fun w ↦
      (TimerLoop.step64 w.loop .processTurn).map fun s₁ ↦
        (w.due 0, decide (s₁.log = .fired (.timer 0) :: w.loop.log))) =
      some (some 205000000, true) := by decide +kernel
  obtain ⟨w, hexec, hmap⟩ := Option.bind_eq_some_iff.mp hrun
  obtain ⟨s₁, hturn, heq⟩ := Option.map_eq_some_iff.mp hmap
  obtain ⟨hdue, hlog⟩ := Prod.mk.inj heq
  have hreach := Reachable.of_exec hexec
  have hlog := of_decide_eq_true hlog
  exact ⟨w, s₁, hreach, hturn, hlog, hdue, not_fired_early hreach hturn hlog hdue⟩

/-- A run ends at 100 seconds; a timer is armed at 200 seconds, and the next run begins. -/
def armBetween : List Action :=
  [.timerNew 0, .runEnter (.ofSec 100), .updateTime (.ofSec 100), .processTurn, .poll, .runExit,
    .timerAdd 0 ⟨5, 0⟩ false 0 (.ofSec 200) true, .runEnter (.ofSec 200), .updateTime (.ofSec 200)]

/-- The expiry is counted from the clock that the previous run has cached. -/
theorem exists_fired_early :
    ∃ w s₁ t x, Reachable Watched.step (fun w a ↦ w.monotone a = true ∧ w.armedFits a = true) init
        w ∧
      TimerLoop.step64 w.loop .processTurn = some s₁ ∧ s₁.log = .fired (.timer t) :: w.loop.log ∧
      w.due t = some x ∧ w.loop.now.micros < x := by
  have hrun : ((exec Watched.step (fun w a ↦ w.monotone a = true ∧ w.armedFits a = true) init
      armBetween).bind fun w ↦ (TimerLoop.step64 w.loop .processTurn).map fun s₁ ↦
        (w.due 0, w.loop.now, decide (s₁.log = .fired (.timer 0) :: w.loop.log))) =
      some (some 205000000, ⟨200, 0⟩, true) := by decide +kernel
  obtain ⟨w, hexec, hmap⟩ := Option.bind_eq_some_iff.mp hrun
  obtain ⟨s₁, hturn, heq⟩ := Option.map_eq_some_iff.mp hmap
  simp only [Prod.mk.injEq] at heq
  obtain ⟨hdue, hnow, hlog⟩ := heq
  refine ⟨w, s₁, 0, 205000000, Reachable.of_exec hexec, hturn, of_decide_eq_true hlog, hdue, ?_⟩
  rw [hnow]
  decide

end Watched

end TimerLoop

end Nanoev
