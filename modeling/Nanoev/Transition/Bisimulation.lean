import Nanoev.Transition.Run

/-!
# Bisimulation

Two states of a guarded transition function are indistinguishable when a relation between them is
kept by every action: the action is possible in both or in neither, it emits the same in both, and
the states after it are related again. Then the runs from both states record the same
(`SameRecords`). Having the same records is itself such a relation, since a step is determined by
its action; so a pair of states can be told apart by following both along any list of actions
(`SameRecords.next`).
-/

namespace Transition

variable {σ α β : Type*}

/-! ## Related results -/

section Results

variable {γ δ : Type*} {R : σ → σ → Prop} {Q : γ → δ → Prop}

theorem rel_guard {p q : Prop} [Decidable p] [Decidable q] {s t : σ} (hpq : q ↔ p)
    (hR : p → R s t) : Option.Rel R (if p then some s else none) (if q then some t else none) := by
  by_cases hp : p
  · rw [if_pos hp, if_pos (hpq.mpr hp)]
    exact .some (hR hp)
  · rw [if_neg hp, if_neg fun hq ↦ hp (hpq.mp hq)]
    exact .none

theorem rel_map {o : Option γ} {o' : Option δ} {f : γ → σ} {g : δ → σ} (ho : Option.Rel Q o o')
    (hR : ∀ x y, Q x y → R (f x) (g y)) : Option.Rel R (o.map f) (o'.map g) := by
  cases ho with
  | some h => exact .some (hR _ _ h)
  | none => exact .none

theorem map_eq_of_rel {o : Option γ} {o' : Option δ} {f : γ → β} {g : δ → β}
    (ho : Option.Rel Q o o') (heq : ∀ x y, Q x y → f x = g y) : o.map f = o'.map g := by
  cases ho with
  | some h => exact congrArg some (heq _ _ h)
  | none => rfl

theorem none_iff_of_rel {o : Option γ} {o' : Option δ} (ho : Option.Rel Q o o') :
    o' = none ↔ o = none := by
  cases ho with
  | some h => exact iff_of_false (Option.some_ne_none _) (Option.some_ne_none _)
  | none => exact iff_of_true rfl rfl

end Results

/-! ## Bisimulations -/

/-- A relation between states that actions cannot tell apart. -/
structure Bisimulation (step : σ → α → Option σ) (emit : σ → α → List β) (R : σ → σ → Prop) :
    Prop where
  step : ∀ s t a, R s t → Option.Rel R (step s a) (step t a)
  emit : ∀ s t a, R s t → emit s a = emit t a

def SameRecords (step : σ → α → Option σ) (emit : σ → α → List β) (s t : σ) : Prop :=
  ∀ as l, (∃ s', Run (recording step emit) anyStep (s, []) as (s', l)) ↔
    ∃ t', Run (recording step emit) anyStep (t, []) as (t', l)

theorem SameRecords.symm {step : σ → α → Option σ} {emit : σ → α → List β} {s t : σ}
    (h : SameRecords step emit s t) : SameRecords step emit t s :=
  fun as l ↦ (h as l).symm

namespace Bisimulation

variable {step : σ → α → Option σ} {emit : σ → α → List β} {R : σ → σ → Prop}

theorem flip (h : Bisimulation step emit R) : Bisimulation step emit (fun s t ↦ R t s) where
  step s t a hR := by
    have hrel := h.step t s a hR
    generalize step t a = o at hrel ⊢
    generalize step s a = o' at hrel ⊢
    cases hrel with
    | some hst => exact .some hst
    | none => exact .none
  emit s t a hR := (h.emit t s a hR).symm

theorem run (h : Bisimulation step emit R) {as : List α} {x x' : σ × List β}
    (hrun : Run (recording step emit) anyStep x as x') : ∀ {t : σ}, R x.1 t →
      ∃ t', Run (recording step emit) anyStep (t, x.2) as (t', x'.2) := by
  induction hrun with
  | nil x => exact fun _ ↦ ⟨_, Run.nil _⟩
  | @cons x y z a as _ hstep _ ih =>
    intro t hR
    obtain ⟨hs, hl⟩ := recording_eq_some hstep
    have hrel := h.step x.1 t a hR
    rw [hs] at hrel
    generalize htstep : step t a = o at hrel
    cases hrel with
    | @some _ u hu =>
      obtain ⟨t', hrest⟩ := ih hu
      refine ⟨t', Run.cons trivial ?_ hrest⟩
      rw [recording, htstep, Option.map_some, hl, h.emit x.1 t a hR]

/-- **Related states have the same records.** -/
theorem sameRecords (h : Bisimulation step emit R) {s t : σ} (hR : R s t) :
    SameRecords step emit s t := by
  intro as l
  constructor
  · rintro ⟨s', hrun⟩
    exact h.run hrun hR
  · rintro ⟨t', hrun⟩
    exact h.flip.run hrun hR

end Bisimulation

/-! ## Following two states with the same records -/

section SameRecords

variable {step : σ → α → Option σ} {emit : σ → α → List β} {s t s' t' : σ} {a : α}

theorem run_recording_append {as : List α} {l₀ l : List β} {x : σ} :
    Run (recording step emit) anyStep (s, l₀) as (x, l) ↔
      ∃ l', l = l₀ ++ l' ∧ Run (recording step emit) anyStep (s, []) as (x, l') := by
  induction as generalizing s l₀ l with
  | nil =>
    constructor
    · intro h
      cases h
      exact ⟨[], (List.append_nil _).symm, Run.nil _⟩
    · rintro ⟨l', rfl, h⟩
      cases h
      rw [List.append_nil]
      exact Run.nil _
  | cons a as ih =>
    constructor
    · intro h
      cases h with
      | @cons _ y _ _ _ hok hstep hrest =>
        obtain ⟨y, k⟩ := y
        obtain ⟨hs, rfl⟩ := recording_eq_some hstep
        obtain ⟨l', rfl, hrun⟩ := ih.mp hrest
        refine ⟨emit s a ++ l', List.append_assoc .., ?_⟩
        exact Run.cons hok (recording_of_step hs []) (ih.mpr ⟨l', rfl, hrun⟩)
    · rintro ⟨l', rfl, h⟩
      cases h with
      | @cons _ y _ _ _ hok hstep hrest =>
        obtain ⟨y, k⟩ := y
        obtain ⟨hs, rfl⟩ := recording_eq_some hstep
        obtain ⟨l'', rfl, hrun⟩ := ih.mp hrest
        refine Run.cons hok (recording_of_step hs l₀) (ih.mpr ⟨l'', ?_, hrun⟩)
        rw [List.nil_append, List.append_assoc]

theorem run_recording_cons (hstep : step s a = some s') {as : List α} {l : List β} :
    (∃ x, Run (recording step emit) anyStep (s, []) (a :: as) (x, emit s a ++ l)) ↔
      ∃ x, Run (recording step emit) anyStep (s', []) as (x, l) := by
  constructor
  · rintro ⟨x, h⟩
    cases h with
    | @cons _ y _ _ _ hok hrec hrest =>
      obtain ⟨y, k⟩ := y
      obtain ⟨hs, rfl⟩ := recording_eq_some hrec
      obtain rfl := Option.some.inj (hstep.symm.trans hs)
      obtain ⟨l', heq, hrest⟩ := run_recording_append.mp hrest
      rw [List.nil_append, List.append_cancel_left_eq] at heq
      exact ⟨x, heq ▸ hrest⟩
  · rintro ⟨x, h⟩
    exact ⟨x, Run.cons trivial (recording_of_step hstep []) (run_recording_append.mpr ⟨l, rfl, h⟩)⟩

/-- **A step of one state is a step of the other**, shows the same, and leads to states that have
the same records again. -/
theorem SameRecords.next (h : SameRecords step emit s t) (hstep : step s a = some s') :
    ∃ t', step t a = some t' ∧ emit s a = emit t a ∧ SameRecords step emit s' t' := by
  obtain ⟨x, hx⟩ := (h [a] (emit s a)).mp
    ⟨s', Run.single trivial (recording_of_step hstep [])⟩
  have hemit : ∃ t', step t a = some t' ∧ emit s a = emit t a := by
    cases hx with
    | @cons _ y _ _ _ _ hrec hrest =>
      obtain ⟨hs, hl⟩ := recording_eq_some hrec
      cases hrest
      exact ⟨_, hs, hl⟩
  obtain ⟨t', hstep', heq⟩ := hemit
  refine ⟨t', hstep', heq, fun as l ↦ ?_⟩
  have hs : (∃ x, Run (recording step emit) anyStep (s, []) (a :: as) (x, emit s a ++ l)) ↔ _ :=
    run_recording_cons hstep
  have ht : (∃ x, Run (recording step emit) anyStep (t, []) (a :: as) (x, emit t a ++ l)) ↔ _ :=
    run_recording_cons hstep'
  rw [← heq] at ht
  exact hs.symm.trans ((h _ _).trans ht)

end SameRecords

end Transition
