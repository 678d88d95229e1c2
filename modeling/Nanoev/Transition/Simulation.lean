import Nanoev.Transition.Run

/-!
# Simulation

A system is observed through what its steps emit. It *refines* another one when everything that can
be observed of it can be observed of the other: the abstract system says what the histories mean,
and the concrete one has no others. Steps that emit nothing are internal, and there may be any
number of them on either side.

Refinement is proved by a simulation: a relation between the states under which a step of the
concrete system is matched by a number of steps of the abstract one, possibly none, that emit the
same.
-/

namespace Transition

variable {σ τ υ α β γ ω : Type*}

/-- The runs of `step` whose steps all meet `ok`, with what they emit. -/
inductive Emits (step : σ → α → Option σ) (emit : σ → α → List ω) (ok : σ → α → Prop) :
    σ → List ω → σ → Prop
  | nil (s : σ) : Emits step emit ok s [] s
  | cons {s t u : σ} {a : α} {l : List ω} (hok : ok s a) (hstep : step s a = some t)
      (rest : Emits step emit ok t l u) : Emits step emit ok s (emit s a ++ l) u

/-- What a list of actions emits, as far as it can be performed. -/
def emitted (step : σ → α → Option σ) (emit : σ → α → List ω) : σ → List α → List ω
  | _, [] => []
  | s, a :: as => emit s a ++ (step s a).elim [] fun t ↦ emitted step emit t as

namespace Emits

variable {step : σ → α → Option σ} {emit : σ → α → List ω} {ok : σ → α → Prop} {s t u : σ} {a : α}
  {l l' : List ω}

theorem single (hok : ok s a) (hstep : step s a = some t) (hl : emit s a = l) :
    Emits step emit ok s l t := by
  have h : Emits step emit ok s (emit s a ++ []) t := cons hok hstep (nil t)
  rwa [List.append_nil, hl] at h

theorem append (h : Emits step emit ok s l t) (h' : Emits step emit ok t l' u) :
    Emits step emit ok s (l ++ l') u := by
  induction h with
  | nil => exact h'
  | cons hok hstep _ ih =>
    rw [List.append_assoc]
    exact cons hok hstep (ih h')

theorem of_recording {as : List α} {x y : σ × List ω}
    (h : Run (recording step emit) (fun x a ↦ ok x.1 a) x as y) :
    ∃ l, y.2 = x.2 ++ l ∧ Emits step emit ok x.1 l y.1 := by
  induction h with
  | nil x => exact ⟨[], (List.append_nil _).symm, nil _⟩
  | @cons x y z a as hok hstep _ ih =>
    obtain ⟨hstep, hy⟩ := recording_eq_some hstep
    obtain ⟨l, hz, hl⟩ := ih
    exact ⟨_, by rw [hz, hy, List.append_assoc], cons hok hstep hl⟩

theorem of_exec [∀ s a, Decidable (ok s a)] {as : List α}
    (h : (exec (recording step emit) (fun x a ↦ ok x.1 a) (s, []) as).map Prod.snd = some l) :
    ∃ t, Emits step emit ok s l t := by
  obtain ⟨x, hx, rfl⟩ := Option.map_eq_some_iff.mp h
  obtain ⟨l, hl, hemits⟩ := of_recording (Run.of_exec hx)
  rw [hl, List.nil_append]
  exact ⟨x.1, hemits⟩

theorem of_run {as : List α} (h : Run step ok s as t) :
    Emits step emit ok s (emitted step emit s as) t := by
  induction h with
  | nil s => exact nil s
  | cons hok hstep _ ih =>
    rw [emitted, hstep]
    exact cons hok hstep ih

end Emits

/-! ## Simulations -/

/-- A relation under which the steps of one system are matched by steps of another one. -/
structure Simulation (step : σ → α → Option σ) (emit : σ → α → List ω) (ok : σ → α → Prop)
    (step' : τ → β → Option τ) (emit' : τ → β → List ω) (ok' : τ → β → Prop)
    (R : σ → τ → Prop) : Prop where
  step : ∀ {s a s' t}, ok s a → step s a = some s' → R s t →
    ∃ t', Emits step' emit' ok' t (emit s a) t' ∧ R s' t'

/-- Everything that can be observed of one system can be observed of the other. -/
def Refines (step : σ → α → Option σ) (emit : σ → α → List ω) (ok : σ → α → Prop) (init : σ)
    (step' : τ → β → Option τ) (emit' : τ → β → List ω) (ok' : τ → β → Prop) (init' : τ) : Prop :=
  ∀ l s, Emits step emit ok init l s → ∃ t, Emits step' emit' ok' init' l t

section Simulation

variable {step : σ → α → Option σ} {emit : σ → α → List ω} {ok : σ → α → Prop}
  {step' : τ → β → Option τ} {emit' : τ → β → List ω} {ok' : τ → β → Prop} {R : σ → τ → Prop}

theorem Simulation.emits (h : Simulation step emit ok step' emit' ok' R) {s s' : σ} {l : List ω}
    (hrun : Emits step emit ok s l s') :
    ∀ {t}, R s t → ∃ t', Emits step' emit' ok' t l t' ∧ R s' t' := by
  induction hrun with
  | nil s => exact fun hR ↦ ⟨_, .nil _, hR⟩
  | cons hok hstep _ ih =>
    intro t hR
    obtain ⟨u, hu, hRu⟩ := h.step hok hstep hR
    obtain ⟨t', ht', hRt'⟩ := ih hRu
    exact ⟨t', hu.append ht', hRt'⟩

/-- **The rule of refinement.** -/
theorem Simulation.refines (h : Simulation step emit ok step' emit' ok' R) {init : σ} {init' : τ}
    (hinit : R init init') : Refines step emit ok init step' emit' ok' init' := by
  intro l s hrun
  obtain ⟨t, ht, -⟩ := h.emits hrun hinit
  exact ⟨t, ht⟩

end Simulation

end Transition
