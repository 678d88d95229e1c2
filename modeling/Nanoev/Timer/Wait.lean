import Nanoev.Timer.LoopInvariant

/-!
# How long the loop sleeps

`nanoev_loop_run` asks `timers_timeout` for the time to the earliest expiry, and `epoll_poller_poll`
turns it into the argument of `epoll_wait`: a 32-bit number of milliseconds, negative for a wait
without end. `timers_timeout` says "no timer" by a negative number of seconds.

The conversion is exact up to a millisecond as long as the number fits, that is for about 24.8 days.
Beyond that the number is taken modulo `2 ^ 32`: for half of the times it is negative, and the loop
sleeps past the expiry, and for the others the loop wakes up early.
-/

namespace Nanoev

/-- A value converted to `int`. -/
def toInt32 (x : ℤ) : ℤ := x.bmod (2 ^ 32)

/-- The argument that `epoll_poller_poll` computes for `epoll_wait`. -/
def timeoutInMs (timeout : Timeval) : ℤ :=
  if timeout.sec ≠ -1 then toInt32 (timeout.sec * 1000 + timeout.usec.tdiv 1000) else -1

theorem toInt32_neg_iff {x : ℤ} : toInt32 x < 0 ↔ 2 ^ 31 ≤ x % 2 ^ 32 := by
  rw [toInt32, Int.bmod]
  split_ifs <;> omega

theorem toInt32_le {x : ℤ} (h : 0 ≤ x) : toInt32 x ≤ x := by
  rw [toInt32, Int.bmod]
  split_ifs <;> omega

/-- A time is rounded down to milliseconds, which are then stored in 32 bits. -/
theorem timeoutInMs_spec {tv : Timeval} (htv : tv.Proper) (h₀ : 0 ≤ tv.micros) :
    timeoutInMs tv = toInt32 (tv.micros / 1000) := by
  obtain ⟨husec, hlt⟩ := htv
  have hdiv : tv.usec.tdiv 1000 = tv.usec / 1000 := Int.tdiv_eq_ediv_of_nonneg husec
  rw [Timeval.micros] at h₀ ⊢
  rw [timeoutInMs, if_pos (by omega), hdiv]
  congr 1
  omega

namespace TimerLoop

open TimerMinHeap Transition

variable {s : TimerLoop} {now : Timeval}

/-- What `timers_timeout` returns when a node is armed: the time to the earliest expiry, or zero. -/
theorem timersTimeout_spec (hs : s.Inv) (hnow : now.Proper) (hsize : s.timers.size ≠ 0)
    (timeout : Timeval) :
    (s.timers.timersTimeout now timeout).Proper ∧
      ∃ n tv, s.timers.armed n = some tv ∧
        (∀ m tv', s.timers.armed m = some tv' → tv.micros ≤ tv'.micros) ∧
        (s.timers.timersTimeout now timeout).micros = max 0 (tv.micros - now.micros) := by
  have hroot := armed_root hs.heap hsize
  have hproper := hs.proper _ _ hroot
  have hmin : ∀ m tv', s.timers.armed m = some tv' →
      (s.timers.node (s.timers.events 0)).timeout.micros ≤ tv'.micros := by
    intro m tv' hm
    exact (Timeval.key_le_iff_micros hproper (hs.proper m tv' hm)).mp (root_le_armed hs.heap hm)
  rw [timersTimeout, if_neg hsize]
  dsimp only
  split_ifs with hdue
  · rw [timeCmp_nonpos_iff, Timeval.key_le_iff_micros hproper hnow] at hdue
    refine ⟨by decide, _, _, hroot, hmin, ?_⟩
    rw [max_eq_left (by omega)]
    rfl
  · rw [timeCmp_nonpos_iff, Timeval.key_le_iff_micros hproper hnow] at hdue
    refine ⟨hproper.timeSub hnow, _, _, hroot, hmin, ?_⟩
    rw [micros_timeSub, max_eq_right (by omega)]

/-- The milliseconds of a time are those of a 32-bit integer again after they have been reduced. -/
def fitsTimeout (remaining : ℤ) : Bool := decide (remaining / 1000 % 2 ^ 32 < 2 ^ 31)

/-- **The loop does not sleep past the earliest expiry**, that is, the argument of `epoll_wait` is
negative exactly when no timer is armed and is otherwise at most the time to any expiry, if and only
if no timer is armed or the milliseconds to the earliest expiry are below `2 ^ 31` modulo
`2 ^ 32`. -/
theorem timeoutInMs_le_remaining_iff (h : Reachable step64 anyStep init s)
    (clock : Timeval.Reading) (timeout : Timeval) :
    ((timeoutInMs (s.timers.timersTimeout clock.1 timeout) < 0 ↔ s.timers.size = 0) ∧
        ∀ n tv, s.timers.armed n = some tv →
          timeoutInMs (s.timers.timersTimeout clock.1 timeout) * 1000 ≤
            max 0 (tv.micros - clock.1.micros)) ↔
      s.timers.size = 0 ∨ ∃ n tv, s.timers.armed n = some tv ∧
        (∀ m tv', s.timers.armed m = some tv' → tv.micros ≤ tv'.micros) ∧
        fitsTimeout (max 0 (tv.micros - clock.1.micros)) = true := by
  have hs := inv_of_reachable64 h
  by_cases hsize : s.timers.size = 0
  · refine iff_of_true ⟨iff_of_true ?_ hsize, fun n tv hn ↦ ?_⟩ (Or.inl hsize)
    · rw [timersTimeout, if_pos hsize, timeoutInMs, if_neg (not_not.mpr rfl)]
      decide
    · rw [armed_of_size_eq_zero hs.heap hsize] at hn
      cases hn
  · obtain ⟨hproper, n₀, tv₀, harmed₀, hmin, hmicros⟩ :=
      timersTimeout_spec hs clock.2.proper hsize timeout
    have hms := timeoutInMs_spec hproper (by omega)
    rw [hmicros] at hms
    refine ⟨fun hgood ↦ Or.inr ⟨n₀, tv₀, harmed₀, hmin, ?_⟩, fun hfits ↦ ?_⟩
    · have hneg : ¬timeoutInMs (s.timers.timersTimeout clock.1 timeout) < 0 :=
        fun hneg ↦ hsize (hgood.1.mp hneg)
      rw [hms, toInt32_neg_iff] at hneg
      exact decide_eq_true (not_le.mp hneg)
    · obtain ⟨n₁, tv₁, harmed₁, hmin₁, hfits⟩ := hfits.resolve_left hsize
      have heq : tv₁.micros = tv₀.micros := le_antisymm (hmin₁ n₀ tv₀ harmed₀) (hmin n₁ tv₁ harmed₁)
      rw [heq, fitsTimeout, decide_eq_true_iff] at hfits
      have hle := toInt32_le (x := max 0 (tv₀.micros - clock.1.micros) / 1000) (by omega)
      refine ⟨iff_of_false ?_ hsize, fun n tv hn ↦ ?_⟩
      · rw [hms, toInt32_neg_iff]
        omega
      · have hfirst := hmin n tv hn
        rw [hms]
        omega

def armAfter (sec : ℤ) : List Action :=
  [.timerNew 0, .runEnter (.ofSec 100), .updateTime (.ofSec 100), .processTurn, .poll,
    .timerAdd 0 ⟨sec, 0⟩ false 0 (.ofSec 100) true, .nextIteration, .updateTime (.ofSec 100),
    .processTurn]

/-- With a delay of 4294968 seconds the milliseconds wrap around to a short time-out. -/
theorem timeoutInMs_le_remaining_iff_wrapped :
    ∃ s, Reachable step64 anyStep init s ∧ s.timers.armed (.timer 0) = some ⟨4295068, 0⟩ ∧
      timeoutInMs (s.timers.timersTimeout ⟨100, 0⟩ s.timeout) = 704 ∧
      timeoutInMs (s.timers.timersTimeout ⟨100, 0⟩ s.timeout) * 1000 ≤ 4294968000000 := by
  have hrun : (exec step64 anyStep init (armAfter 4294968)).map (fun s ↦
      (s.timers.size, s.timers.events 0, s.timers.armed (.timer 0),
        timeoutInMs (s.timers.timersTimeout ⟨100, 0⟩ s.timeout))) =
      some (1, .timer 0, some ⟨4295068, 0⟩, 704) := by decide +kernel
  obtain ⟨s, hexec, heq⟩ := Option.map_eq_some_iff.mp hrun
  simp only [Prod.mk.injEq] at heq
  obtain ⟨hsize, hroot, harmed, hms⟩ := heq
  have hreach := Reachable.of_exec hexec
  have hmin : ∀ m tv', s.timers.armed m = some tv' → (⟨4295068, 0⟩ : Timeval).micros ≤
    tv'.micros := by
    intro m tv' hm
    have hi := inv_of_reachable64 hreach
    obtain ⟨i, hlt, rfl⟩ := hi.heap.holds.mem m (armed_eq_some_iff.mp hm).1
    obtain rfl : i = 0 := by omega
    rw [hroot, harmed] at hm
    exact (Option.some.inj hm) ▸ le_rfl
  obtain ⟨-, hle⟩ := (timeoutInMs_le_remaining_iff hreach (.ofSec 100) s.timeout).mpr
    (Or.inr ⟨.timer 0, _, harmed, hmin, by decide⟩)
  exact ⟨s, hreach, harmed, hms, hle _ _ harmed⟩

/-- With a delay of 2147484 seconds the milliseconds do not fit, and the loop waits without end. -/
theorem exists_timeoutInMs_neg :
    ∃ s, Reachable step64 anyStep init s ∧ s.control = .waiting ∧ s.timers.size ≠ 0 ∧
      timeoutInMs (s.timers.timersTimeout s.now s.timeout) < 0 := by
  have hrun : (exec step64 anyStep init (armAfter 2147484)).map (fun s ↦
      (s.control, s.timers.size, timeoutInMs (s.timers.timersTimeout s.now s.timeout))) =
      some (.waiting, 1, -2147483296) := by decide +kernel
  obtain ⟨s, hexec, heq⟩ := Option.map_eq_some_iff.mp hrun
  simp only [Prod.mk.injEq] at heq
  obtain ⟨hcontrol, hsize, hms⟩ := heq
  exact ⟨s, Reachable.of_exec hexec, hcontrol, by omega, by omega⟩

end TimerLoop

end Nanoev
