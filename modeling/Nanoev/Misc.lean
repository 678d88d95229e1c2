import Mathlib.Data.Prod.Lex
import Mathlib.Tactic.Ring
import Mathlib.Tactic.Linarith

/-!
# Return codes and time values

The return codes of `nanoev.h` and the arithmetic on `nanoev_timeval` of `nanoev_misc.c`. A time
value is a pair of seconds and microseconds, taken over unbounded integers.

On the machine the seconds are a signed 64-bit integer. The place where this matters is `time_add`,
since the delays that it is called with are not bounded: `timeAdd64` is the addition with seconds
that wrap around. For normalized time values the two additions agree exactly as long as the seconds
of the sum, the carry included, stay below `2 ^ 63` (`timeAddFits`); otherwise the sum is negative.

The source guards its arithmetic with `ASSERT`. An assertion is compiled out of a release build, so
the functions below compute what the code computes with the assertions ignored, and each has a
companion ending in `Asserts` that says whether the assertions on the executed path hold.
-/

namespace Nanoev

inductive RetCode
  | success
  | invalidArg
  | accessDenied
  | outOfMemory
  | fail
deriving DecidableEq, Repr

/-- `nanoev_timeval`. -/
structure Timeval where
  sec : ℤ
  usec : ℤ
deriving DecidableEq, Repr

/-- `time_add`: `tv += add`. -/
def timeAdd (tv add : Timeval) : Timeval :=
  let sec := tv.sec + add.sec
  let usec := tv.usec + add.usec
  if usec ≥ 1000000 then ⟨sec + 1, usec - 1000000⟩ else ⟨sec, usec⟩

/-- What a signed 64-bit integer holds after `x` has been stored to it. -/
def toInt64 (x : ℤ) : ℤ := x.bmod (2 ^ 64)

/-- `time_add`, with seconds of 64 bits. -/
def timeAdd64 (tv add : Timeval) : Timeval :=
  let sec := toInt64 (tv.sec + add.sec)
  let usec := tv.usec + add.usec
  if usec ≥ 1000000 then ⟨toInt64 (sec + 1), usec - 1000000⟩ else ⟨sec, usec⟩

/-- The seconds of the sum, the carry included, are those of a 64-bit integer. -/
def timeAddFits (tv add : Timeval) : Bool :=
  decide (tv.sec + add.sec + (if tv.usec + add.usec ≥ 1000000 then 1 else 0) < 2 ^ 63)

/-- The assertion of `time_add`. -/
def timeAddAsserts (tv add : Timeval) : Bool := decide (tv.usec + add.usec < 2000000)

/-- `time_sub`: `tv -= sub`. -/
def timeSub (tv sub : Timeval) : Timeval :=
  let sec := tv.sec - sub.sec
  if sub.usec > tv.usec then ⟨sec - 1, tv.usec + 1000000 - sub.usec⟩
  else ⟨sec, tv.usec - sub.usec⟩

/-- The assertions of `time_sub`; the last two are made on the borrow only. -/
def timeSubAsserts (tv sub : Timeval) : Bool :=
  decide (tv.sec ≥ sub.sec) &&
    (decide (sub.usec ≤ tv.usec) ||
      (decide (tv.sec - sub.sec > 0) && decide (tv.usec + 1000000 - sub.usec < 1000000)))

/-- `time_cmp`. -/
def timeCmp (tv0 tv1 : Timeval) : ℤ :=
  if tv0.sec > tv1.sec then 1
  else if tv0.sec < tv1.sec then -1
  else if tv0.usec > tv1.usec then 1
  else if tv0.usec < tv1.usec then -1
  else 0

/-- The check that `nanoev_timer_add` and the TCP start functions make on a delay. -/
def invalidDelay (after : Timeval) : Bool :=
  decide (after.sec < 0) || decide (after.usec < 0) || decide (after.usec ≥ 1000000)

namespace Timeval

/-- The order of `time_cmp`, as a lexicographic order. -/
def key (tv : Timeval) : ℤ ×ₗ ℤ := toLex (tv.sec, tv.usec)

def micros (tv : Timeval) : ℤ := tv.sec * 1000000 + tv.usec

def Proper (tv : Timeval) : Prop := 0 ≤ tv.usec ∧ tv.usec < 1000000

/-- A normalized time value is proper and not negative. -/
def Normalized (tv : Timeval) : Prop := 0 ≤ tv.sec ∧ tv.Proper

/-- A reading of the system clock: `nanoev_now` takes it from `gettimeofday`, which returns a
normalized time. -/
abbrev Reading := { tv : Timeval // tv.Normalized }

def Reading.ofSec (n : ℕ) : Reading := ⟨⟨n, 0⟩, Int.natCast_nonneg n, by norm_num [Proper]⟩

instance (tv : Timeval) : Decidable tv.Proper := inferInstanceAs (Decidable (_ ∧ _))

instance (tv : Timeval) : Decidable tv.Normalized := inferInstanceAs (Decidable (_ ∧ _))

theorem ne_zero_iff {tv : Timeval} : tv ≠ ⟨0, 0⟩ ↔ tv.sec ≠ 0 ∨ tv.usec ≠ 0 := by
  cases tv
  rw [Ne, Timeval.mk.injEq, not_and_or]

theorem key_le_iff {a b : Timeval} :
    a.key ≤ b.key ↔ a.sec < b.sec ∨ a.sec = b.sec ∧ a.usec ≤ b.usec := by
  rw [key, key, Prod.Lex.toLex_le_toLex]

theorem key_lt_iff {a b : Timeval} :
    a.key < b.key ↔ a.sec < b.sec ∨ a.sec = b.sec ∧ a.usec < b.usec := by
  rw [key, key, Prod.Lex.toLex_lt_toLex]

theorem Normalized.proper {tv : Timeval} (h : tv.Normalized) : tv.Proper := h.2

theorem Normalized.micros_nonneg {tv : Timeval} (h : tv.Normalized) : 0 ≤ tv.micros := by
  obtain ⟨h₁, h₂, -⟩ := h
  unfold micros
  omega

theorem key_le_iff_micros {a b : Timeval} (ha : a.Proper) (hb : b.Proper) :
    a.key ≤ b.key ↔ a.micros ≤ b.micros := by
  obtain ⟨ha₀, ha₁⟩ := ha
  obtain ⟨hb₀, hb₁⟩ := hb
  rw [key_le_iff, micros, micros]
  omega

theorem key_lt_iff_micros {a b : Timeval} (ha : a.Proper) (hb : b.Proper) :
    a.key < b.key ↔ a.micros < b.micros := by
  rw [← not_le, ← not_le, key_le_iff_micros hb ha]

end Timeval

open Timeval

theorem timeCmp_pos_iff {a b : Timeval} : timeCmp a b > 0 ↔ b.key < a.key := by
  rw [key_lt_iff]
  unfold timeCmp
  split_ifs <;> omega

theorem timeCmp_neg_iff {a b : Timeval} : timeCmp a b < 0 ↔ a.key < b.key := by
  rw [key_lt_iff]
  unfold timeCmp
  split_ifs <;> omega

theorem timeCmp_nonpos_iff {a b : Timeval} : timeCmp a b ≤ 0 ↔ a.key ≤ b.key := by
  rw [← not_lt, ← not_lt, ← timeCmp_pos_iff]

theorem invalidDelay_eq_false_iff {after : Timeval} :
    invalidDelay after = false ↔ after.Normalized := by
  simp only [invalidDelay, Timeval.Normalized, Timeval.Proper, Bool.or_eq_false_iff,
    decide_eq_false_iff_not]
  omega

/-! ## The arithmetic in microseconds -/

@[simp] theorem micros_timeAdd (a b : Timeval) : (timeAdd a b).micros = a.micros + b.micros := by
  simp only [timeAdd, micros]
  split_ifs <;> ring

@[simp] theorem micros_timeSub (a b : Timeval) : (timeSub a b).micros = a.micros - b.micros := by
  simp only [timeSub, micros]
  split_ifs <;> ring

theorem Timeval.Proper.timeAdd {a b : Timeval} (ha : a.Proper) (hb : b.Proper) :
    (timeAdd a b).Proper := by
  unfold Timeval.Proper at *
  simp only [Nanoev.timeAdd]
  split_ifs <;> constructor <;> dsimp only <;> omega

theorem Timeval.Proper.timeSub {a b : Timeval} (ha : a.Proper) (hb : b.Proper) :
    (timeSub a b).Proper := by
  unfold Timeval.Proper at *
  simp only [Nanoev.timeSub]
  split_ifs <;> constructor <;> dsimp only <;> omega

theorem Timeval.Proper.eq_of_micros {a b : Timeval} (ha : a.Proper) (hb : b.Proper)
    (h : a.micros = b.micros) : a = b := by
  obtain ⟨sec, usec⟩ := a
  obtain ⟨sec', usec'⟩ := b
  obtain ⟨h₀, h₁⟩ := ha
  obtain ⟨h₀', h₁'⟩ := hb
  simp only [Timeval.micros] at *
  rw [Timeval.mk.injEq]
  omega

theorem Timeval.Proper.timeAddAsserts {a b : Timeval} (ha : a.Proper) (hb : b.Proper) :
    timeAddAsserts a b = true := by
  unfold Timeval.Proper at *
  simp only [Nanoev.timeAddAsserts, decide_eq_true_eq]
  omega

/-- The assertions of `time_sub` hold exactly when the difference is not negative. -/
theorem timeSubAsserts_iff {a b : Timeval} (ha : a.Proper) (hb : b.Proper) :
    timeSubAsserts a b = true ↔ b.micros ≤ a.micros := by
  obtain ⟨ha₀, ha₁⟩ := ha
  obtain ⟨hb₀, hb₁⟩ := hb
  simp only [timeSubAsserts, micros, Bool.and_eq_true, Bool.or_eq_true, decide_eq_true_eq]
  omega

/-! ## Seconds of 64 bits -/

theorem Timeval.Normalized.timeAdd {a b : Timeval} (ha : a.Normalized) (hb : b.Normalized) :
    (timeAdd a b).Normalized := by
  refine ⟨?_, ha.proper.timeAdd hb.proper⟩
  have ha₀ := ha.1
  have hb₀ := hb.1
  unfold Nanoev.timeAdd
  dsimp only
  split_ifs
  · dsimp only
    omega
  · exact add_nonneg ha₀ hb₀

theorem Timeval.Proper.timeAdd64 {a b : Timeval} (ha : a.Proper) (hb : b.Proper) :
    (timeAdd64 a b).Proper := by
  unfold Timeval.Proper at *
  simp only [Nanoev.timeAdd64]
  split_ifs <;> constructor <;> dsimp only <;> omega

theorem toInt64_of_lt {x : ℤ} (h₀ : 0 ≤ x) (h : x < 2 ^ 63) : toInt64 x = x :=
  Int.bmod_eq_of_le (by omega) (by omega)

theorem toInt64_of_le {x : ℤ} (h : 2 ^ 63 ≤ x) (h' : x < 2 ^ 64) : toInt64 x = x - 2 ^ 64 := by
  unfold toInt64 Int.bmod
  have hmod : x % (2 ^ 64 : ℕ) = x := Int.emod_eq_of_lt (by omega) (by omega)
  rw [hmod]
  dsimp only
  rw [if_neg (by omega)]
  norm_num

theorem timeAdd64_eq {tv add : Timeval} (htv : tv.Normalized) (hadd : add.Normalized)
    (h : timeAddFits tv add = true) : timeAdd64 tv add = timeAdd tv add := by
  have hsum := add_nonneg htv.1 hadd.1
  rw [timeAddFits, decide_eq_true_iff] at h
  unfold timeAdd64 timeAdd
  dsimp only
  split_ifs at h ⊢
  · rw [toInt64_of_lt hsum (by omega), toInt64_of_lt (by omega) h]
  · rw [toInt64_of_lt hsum (by omega)]

theorem timeAdd64_neg {tv add : Timeval} (htv : tv.Normalized) (hadd : add.Normalized)
    (htv' : tv.sec < 2 ^ 63) (hadd' : add.sec < 2 ^ 63) (h : timeAddFits tv add = false) :
    (timeAdd64 tv add).sec < 0 := by
  have hsum := add_nonneg htv.1 hadd.1
  rw [timeAddFits, decide_eq_false_iff_not] at h
  unfold timeAdd64
  dsimp only
  split_ifs at h ⊢
  · by_cases hlt : tv.sec + add.sec < 2 ^ 63
    · -- the carry makes the sum overflow
      rw [toInt64_of_lt hsum hlt, toInt64_of_le (by omega) (by omega)]
      dsimp only
      omega
    · rw [toInt64_of_le (not_lt.mp hlt) (by omega)]
      dsimp only
      rw [toInt64, Int.bmod_eq_of_le (by omega) (by omega)]
      omega
  · rw [toInt64_of_le (by omega) (by omega)]
    dsimp only
    omega

end Nanoev
