import Mathlib.Data.List.Basic
import Mathlib.Data.Option.Basic

/-!
# Runs of a guarded transition function

A system is given by a partial step function `step : σ → α → Option σ`: `step s a` is `none` when
the action `a` is not enabled in the state `s`. A *run* performs a list of actions in order. Besides
the guards that are part of `step`, a run may have to meet a condition `ok s a` at every step, which
is how an assumption on the environment or on a client enters a statement: it restricts the runs
that are considered and leaves the system as it is.

Everything here is parametric in the state and in the actions. The rules that carry the weight are
`Run.invariant`, for what holds in every state reached, and `Run.of_exec`, which turns the
evaluation of a concrete list of actions into a run.
-/

namespace Transition

variable {σ α : Type*}

/-- The runs of `step` whose steps all meet `ok`, with the actions they perform. -/
inductive Run (step : σ → α → Option σ) (ok : σ → α → Prop) : σ → List α → σ → Prop
  | nil (s : σ) : Run step ok s [] s
  | cons {s t u : σ} {a : α} {as : List α} (hok : ok s a) (hstep : step s a = some t)
      (rest : Run step ok t as u) : Run step ok s (a :: as) u

theorem of_guard {p : Prop} [Decidable p] {s t : σ}
    (h : (if p then some s else none) = some t) : p ∧ t = s := by
  obtain ⟨hp, h⟩ := Option.ite_none_right_eq_some.mp h
  exact ⟨hp, (Option.some.inj h).symm⟩

def anyStep (_ : σ) (_ : α) : Prop := True

namespace Run

variable {step : σ → α → Option σ} {ok ok' : σ → α → Prop} {s t u : σ} {a : α} {as bs : List α}

theorem single (hok : ok s a) (hstep : step s a = some t) : Run step ok s [a] t :=
  cons hok hstep (nil t)

theorem append (h₁ : Run step ok s as t) (h₂ : Run step ok t bs u) :
    Run step ok s (as ++ bs) u := by
  induction h₁ with
  | nil => exact h₂
  | cons hok hstep _ ih => exact cons hok hstep (ih h₂)

theorem mono (hle : ∀ s a, ok s a → ok' s a) (h : Run step ok s as t) :
    Run step ok' s as t := by
  induction h with
  | nil s => exact nil s
  | cons hok hstep _ ih => exact cons (hle _ _ hok) hstep ih

/-- A condition that all actions of a run meet may be checked along the run. -/
theorem restrict {p : α → Prop} (h : Run step ok s as t) (hp : ∀ a ∈ as, p a) :
    Run step (fun _ a ↦ p a) s as t := by
  induction h with
  | nil s => exact nil s
  | cons _ hstep _ ih =>
    refine cons (hp _ List.mem_cons_self) hstep (ih fun a ha ↦ ?_)
    exact hp a (List.mem_cons_of_mem _ ha)

/-- **The invariant rule.** What one step preserves, a run preserves. -/
theorem invariant {I : σ → Prop}
    (hI : ∀ s a t, I s → ok s a → step s a = some t → I t)
    (h : Run step ok s as t) (hs : I s) : I t := by
  induction h with
  | nil => exact hs
  | cons hok hstep _ ih => exact ih (hI _ _ _ hs hok hstep)

end Run

/-- The states that the runs from `init` reach. -/
def Reachable (step : σ → α → Option σ) (ok : σ → α → Prop) (init s : σ) : Prop :=
  ∃ as, Run step ok init as s

namespace Reachable

variable {step : σ → α → Option σ} {ok : σ → α → Prop} {init s t : σ} {a : α}

theorem refl : Reachable step ok init init := ⟨[], Run.nil init⟩

theorem invariant {I : σ → Prop} (h : Reachable step ok init s) (hinit : I init)
    (hI : ∀ s a t, I s → ok s a → step s a = some t → I t) : I s := by
  obtain ⟨as, hrun⟩ := h
  exact hrun.invariant hI hinit

theorem tail (h : Reachable step ok init s) (hok : ok s a) (hstep : step s a = some t) :
    Reachable step ok init t := by
  obtain ⟨as, hrun⟩ := h
  exact ⟨as ++ [a], hrun.append (Run.single hok hstep)⟩

theorem trans_run {as : List α} (h : Reachable step ok init s) (hrun : Run step ok s as t) :
    Reachable step ok init t := by
  obtain ⟨bs, hbs⟩ := h
  exact ⟨bs ++ as, hbs.append hrun⟩

end Reachable

/-! ## Recording -/

section Recording

variable {β : Type*} {step : σ → α → Option σ} {emit : σ → α → List β} {x y : σ × List β} {a : α}

/-- The system with a record of what its steps emit. The steps do not depend on the record. -/
def recording (step : σ → α → Option σ) (emit : σ → α → List β) (x : σ × List β) (a : α) :
    Option (σ × List β) :=
  (step x.1 a).map fun t ↦ (t, x.2 ++ emit x.1 a)

theorem recording_eq_some (h : recording step emit x a = some y) :
    step x.1 a = some y.1 ∧ y.2 = x.2 ++ emit x.1 a := by
  obtain ⟨t, ht, rfl⟩ := Option.map_eq_some_iff.mp h
  exact ⟨ht, rfl⟩

theorem recording_of_step {s t : σ} (h : step s a = some t) (l : List β) :
    recording step emit (s, l) a = some (t, l ++ emit s a) := by
  rw [recording, h, Option.map_some]

end Recording

/-! ## Evaluation -/

/-- The state after performing the actions in order, checking `ok` before each of them. -/
def exec (step : σ → α → Option σ) (ok : σ → α → Prop) [∀ s a, Decidable (ok s a)] :
    σ → List α → Option σ
  | s, [] => some s
  | s, a :: as => if ok s a then (step s a).bind fun t ↦ exec step ok t as else none

section Exec

variable {step : σ → α → Option σ} {ok : σ → α → Prop} [∀ s a, Decidable (ok s a)]

theorem exec_append (s : σ) (as bs : List α) :
    exec step ok s (as ++ bs) = (exec step ok s as).bind fun t ↦ exec step ok t bs := by
  induction as generalizing s with
  | nil => rfl
  | cons a as ih =>
    rw [List.cons_append, exec, exec]
    split
    · rw [Option.bind_assoc]
      exact congrArg _ (funext fun t ↦ ih t)
    · rfl

theorem Run.of_exec {as : List α} : ∀ {s t : σ}, exec step ok s as = some t →
    Run step ok s as t := by
  induction as with
  | nil =>
    intro s t h
    rw [exec, Option.some.injEq] at h
    rw [h]
    exact Run.nil t
  | cons a as ih =>
    intro s t h
    rw [exec] at h
    split at h
    · next hok =>
      obtain ⟨u, hu, hrest⟩ := Option.bind_eq_some_iff.mp h
      exact Run.cons hok hu (ih hrest)
    · cases h

theorem Reachable.of_exec {as : List α} {s t : σ} (h : exec step ok s as = some t) :
    Reachable step ok s t :=
  ⟨as, Run.of_exec h⟩

end Exec

instance (s : σ) (a : α) : Decidable (anyStep s a) := inferInstanceAs (Decidable True)

end Transition
