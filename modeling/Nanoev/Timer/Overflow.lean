import Nanoev.Timer.Runs

/-!
# Expiries in 64 bits

The seconds of a time value are a signed 64-bit integer. `nanoev_timer_add` and the TCP start
functions check the microseconds of a delay and the sign of its seconds; `time_add` then adds the
seconds of the loop time, and possibly a carry, without any check. A delay of nearly `2 ^ 63`
seconds passes, its expiry wraps around into the distant past, and the timer fires at once.

The sum is exact if and only if its seconds, the carry included, are below `2 ^ 63`
(`timeAdd64_exact_iff`). A node that is armed with such a sum keeps its expiry, whatever happens to
the expiries of the other nodes, and so it is not fired before the loop time has moved on.
-/

namespace Nanoev

/-- The 64-bit sum is normalized, and is the sum of the times, exactly when the seconds fit. -/
theorem timeAdd64_exact_iff {now after : Timeval} (hnow : now.Normalized)
    (hafter : after.Normalized)
    (hnow' : now.sec < 2 ^ 63) (hafter' : after.sec < 2 ^ 63) :
    (timeAdd64 now after).Normalized ∧ (timeAdd64 now after).micros = now.micros + after.micros ↔
      timeAddFits now after = true := by
  refine ⟨fun h ↦ ?_, fun h ↦ ?_⟩
  · by_contra hnot
    have hneg := timeAdd64_neg hnow hafter hnow' hafter' (Bool.eq_false_iff.mpr hnot)
    exact absurd h.1.1 (not_le.mpr hneg)
  · rw [timeAdd64_eq hnow hafter h, micros_timeAdd]
    exact ⟨hnow.timeAdd hafter, rfl⟩

namespace TimerLoop

open TimerMinHeap Transition

variable {s s' : TimerLoop} {a : Action} {n : NodeRef} {tv after : Timeval}
  {clock : Timeval.Reading} {add : Timeval → Timeval → Timeval}

/-- `__update_time` finds that the clock has gone backward. -/
def setsBack (s : TimerLoop) : Action → Bool
  | .updateTime clock => decide (timeCmp clock.1 s.now < 0)
  | _ => false

/-- The expiry of a node that stays armed is only changed when the clock has gone backward. -/
theorem EffectBy.expiry_kept (hs : s.Inv) (hE : EffectBy add s a s') (hback : s.setsBack a = false)
    (harmed : s.timers.armed n = some tv) :
    s'.timers.armed n = none ∨ s'.timers.armed n = some tv := by
  cases ha : a.sets with
  | none =>
    obtain ⟨-, hsame | hnone | ⟨hnone, -⟩⟩ := hE.armed_spec hs ha n
    · exact Or.inr (hsame.trans harmed)
    · exact Or.inl hnone
    · rw [harmed] at hnone
      cases hnone
  | some clock =>
    right
    obtain ⟨-, ⟨rfl, hsame⟩ | ⟨rfl, hshift⟩⟩ := hE.armed_of_sets hs ha n
    · exact hsame.trans harmed
    · rw [setsBack, decide_eq_false_iff_not] at hback
      rw [hshift, harmed, Option.map_some, shifted, if_neg hback]

/-- What may happen while the node is armed: anything but a clock that goes backward. -/
def pending (n : NodeRef) (s : TimerLoop) (a : Action) : Prop :=
  s.timers.timerNodeActive n = true ∧ s.setsBack a = false

/-- A node is fired when the clock has reached the expiry that it was armed with. -/
theorem Inv.fired_late (hs : s.Inv) (harmed : s.timers.armed n = some tv) {as : List Action}
    {s₂ s₃ : TimerLoop} (hrun : Run step64 (pending n) s as s₂)
    (hturn : step64 s₂ .processTurn = some s₃) (hlog : s₃.log = .fired n :: s₂.log) :
    tv.micros ≤ s₂.now.micros := by
  -- as long as the node is armed, it has the same expiry
  have hinv : s₂.Inv ∧ (s₂.timers.armed n = none ∨ s₂.timers.armed n = some tv) := by
    refine hrun.invariant (I := fun x ↦ x.Inv ∧
      (x.timers.armed n = none ∨ x.timers.armed n = some tv)) ?_ ⟨hs, Or.inr harmed⟩
    rintro x a y ⟨hx, hx'⟩ ⟨hactive, hback⟩ hstep
    refine ⟨inv_of_step64 hx hstep, ?_⟩
    rw [timerNodeActive_eq, Option.isSome_iff_ne_none] at hactive
    exact (step64_effect hx hstep).expiry_kept hx hback (hx'.resolve_left hactive)
  obtain ⟨hs₂, hexpiry⟩ := hinv
  have hE := step64_effect hs₂ hturn
  obtain ⟨tv', harmed', -⟩ := hE.armed_of_fired hlog
  have hexp := hE.expired_of_fired hs₂ hlog harmed'
  rw [harmed'] at hexpiry
  obtain rfl := Option.some.inj (hexpiry.resolve_left (Option.some_ne_none tv'))
  exact hexp

/-- **Expiries are exact if and only if the sum fits.** For every loop time and every delay that the
checks accept, the expiry that `time_add` computes is normalized and equal to the loop time plus the
delay exactly when `now.sec + after.sec`, with the carry, is below `2 ^ 63`; otherwise it is
negative. In every run a node is armed with the result of this addition; and if the sum fits and the
delay is positive, the node is not fired before the loop time has passed the one at which it was
armed, unless the clock has gone backward in between and the expiry was adjusted with it. -/
theorem expiry64_exact {s : TimerLoop} (hreach : Reachable step64 anyStep init s) :
    (∀ now after : Timeval, now.Normalized → now.sec < 2 ^ 63 → invalidDelay after = false →
      after.sec < 2 ^ 63 →
        ((timeAdd64 now after).Normalized ∧
            (timeAdd64 now after).micros = now.micros + after.micros ↔
          timeAddFits now after = true) ∧
        (timeAddFits now after = false → (timeAdd64 now after).sec < 0)) ∧
    ∀ (s₁ : TimerLoop) (a : Action) (n : NodeRef), step64 s a = some s₁ →
      s.timers.timerNodeActive n = false → s₁.timers.timerNodeActive n = true →
        ∃ after clock, Arms s a n after clock ∧ invalidDelay after = false ∧
          s₁.timers.armed n = some (timeAdd64 (s.loopNow clock) after) ∧
          (timeAddFits (s.loopNow clock) after = true → 0 < after.micros → ∀ as s₂ s₃,
            Run step64 (pending n) s₁ as s₂ → step64 s₂ .processTurn = some s₃ →
            s₃.log = .fired n :: s₂.log → (s.loopNow clock).micros < s₂.now.micros) := by
  constructor
  · intro now after hnow hnow' hvalid hafter'
    have hafter := invalidDelay_eq_false_iff.mp hvalid
    exact ⟨timeAdd64_exact_iff hnow hafter hnow' hafter',
      timeAdd64_neg hnow hafter hnow' hafter'⟩
  · intro s₁ a n hstep hoff hon
    have hs := inv_of_reachable64 hreach
    have hs₁ := inv_of_step64 hs hstep
    rw [timerNodeActive_eq, Option.isSome_eq_false_iff, Option.isNone_iff_eq_none] at hoff
    rw [timerNodeActive_eq, Option.isSome_iff_exists] at hon
    obtain ⟨tv, hon⟩ := hon
    obtain ⟨after, clock, harms, -, hafter, rfl⟩ :=
      (step64_effect hs hstep).newly_armed hs hoff hon
    refine ⟨after, clock, harms, invalidDelay_eq_false_iff.mpr hafter, hon, ?_⟩
    intro hfits hpos as s₂ s₃ hrun hturn hlog
    have hle := hs₁.fired_late hon hrun hturn hlog
    rw [timeAdd64_eq (hs.loopNow_normalized clock) hafter hfits, micros_timeAdd] at hle
    omega

/-- At 100 seconds, one timer is armed with a delay that wraps around and one with a delay that just
fits. -/
def armExtremes : List Action :=
  [.timerNew 0, .timerNew 1, .timerAdd 0 ⟨2 ^ 63 - 1, 0⟩ false 7 (.ofSec 100) true]

theorem expiry64_exact_extremes :
    ∃ s s₁ : TimerLoop, Reachable step64 anyStep init s ∧
      s.timers.armed (.timer 0) = some ⟨-2 ^ 63 + 99, 0⟩ ∧
      step64 s (.timerAdd 1 ⟨2 ^ 63 - 101, 0⟩ false 7 (.ofSec 100) true) = some s₁ ∧
      ∃ after clock,
        Arms s (.timerAdd 1 ⟨2 ^ 63 - 101, 0⟩ false 7 (.ofSec 100) true) (.timer 1) after clock ∧
        s₁.timers.armed (.timer 1) = some (timeAdd64 (s.loopNow clock) after) ∧
        timeAddFits ⟨100, 0⟩ ⟨2 ^ 63 - 101, 0⟩ = true ∧
        (timeAdd64 ⟨100, 0⟩ ⟨2 ^ 63 - 101, 0⟩).Normalized := by
  have hrun : ((exec step64 anyStep init armExtremes).bind fun s ↦
      (step64 s (.timerAdd 1 ⟨2 ^ 63 - 101, 0⟩ false 7 (.ofSec 100) true)).map fun s₁ ↦
        (s.timers.armed (.timer 0), s.timers.timerNodeActive (.timer 1),
          s₁.timers.timerNodeActive (.timer 1))) =
      some (some ⟨-2 ^ 63 + 99, 0⟩, false, true) := by decide +kernel
  obtain ⟨s, hexec, hmap⟩ := Option.bind_eq_some_iff.mp hrun
  obtain ⟨s₁, hstep, heq⟩ := Option.map_eq_some_iff.mp hmap
  simp only [Prod.mk.injEq] at heq
  obtain ⟨hwrapped, hoff, hon⟩ := heq
  have hreach := Reachable.of_exec hexec
  obtain ⟨harith, hruns⟩ := expiry64_exact hreach
  have hfits : timeAddFits ⟨100, 0⟩ ⟨2 ^ 63 - 101, 0⟩ = true := by decide
  obtain ⟨after, clock, harms, -, harmed, -⟩ := hruns s₁ _ (.timer 1) hstep hoff hon
  have hexact := (harith ⟨100, 0⟩ ⟨2 ^ 63 - 101, 0⟩ (by decide) (by decide) (by decide)
    (by decide)).1.mpr hfits
  exact ⟨s, s₁, hreach, hwrapped, hstep, after, clock, harms, harmed, hfits, hexact.1⟩

/-- A timer with a delay of `2 ^ 63 - 1` seconds, armed at 100 seconds; the loop is run at once. -/
def armForever : List Action :=
  [.timerNew 0, .timerAdd 0 ⟨2 ^ 63 - 1, 0⟩ false 7 (.ofSec 100) true, .runEnter (.ofSec 100),
    .updateTime (.ofSec 100), .processTurn]

/-- The delay is accepted, the expiry wraps around, and the timer fires at the loop time at which it
was armed. -/
theorem exists_expiry_wraps :
    invalidDelay ⟨2 ^ 63 - 1, 0⟩ = false ∧
      timeAddFits ⟨100, 0⟩ ⟨2 ^ 63 - 1, 0⟩ = false ∧
      timeAdd64 ⟨100, 0⟩ ⟨2 ^ 63 - 1, 0⟩ = ⟨-2 ^ 63 + 99, 0⟩ ∧
      ∃ s, Reachable step64 anyStep init s ∧ s.log = [.fired (.timer 0), .added 0] ∧
        s.now = ⟨100, 0⟩ := by
  have hrun : (exec step64 anyStep init armForever).map (fun s ↦ (s.log, s.now)) =
      some ([.fired (.timer 0), .added 0], ⟨100, 0⟩) := by decide +kernel
  obtain ⟨s, hexec, hs⟩ := Option.map_eq_some_iff.mp hrun
  obtain ⟨hlog, hnow⟩ := Prod.mk.inj hs
  exact ⟨by decide, by decide, by decide, s, Reachable.of_exec hexec, hlog, hnow⟩

end TimerLoop

end Nanoev
