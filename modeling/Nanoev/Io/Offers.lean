import Nanoev.Io.Local

/-!
# What is still to be offered

While the loop polls, the directions of an event that `epoll_wait` has reported are offered to its
`reactor_cb` one after the other. What holds of an event when it is reported still holds when the
directions are offered, if it does not depend on what `reactor_cb` does for the other direction or
on what other threads send.
-/

namespace Nanoev

open Transition

namespace IoLoop

variable {s s' : IoLoop} {a : Action} {P : Dir → Obj → Prop}

/-- `P` holds of the directions that are still to be offered, and of the events they belong to. -/
def Offered (P : Dir → Obj → Prop) (s : IoLoop) : Prop :=
  ∀ reported offers, s.phase = .polling reported offers →
    ∀ e ∈ offers, ∀ o, s.mem e.1 = some o → P e.2 o

/-- What `P` must not depend on: what an offer of another direction does, and what is sent by other
threads. -/
structure Steady (P : Dir → Obj → Prop) : Prop where
  send : ∀ {d x written}, P d (.async x) → P d (.async (x.nanoevAsyncSend written).1)
  tcp : ∀ {d e t sys fresh t' completed effects},
    Tcp.OfferOutcome t d sys fresh t' completed effects →
    e ≠ d → P e (.tcp t) → P e (.tcp t')
  udp : ∀ {d e u} {sys : Sys}, e ≠ d → P e (.udp u) → P e (.udp (u.reactorCb d sys).1)
  async : ∀ {e x} {sys : Sys}, e ≠ .read → P e (.async x) → P e (.async (x.reactorCb sys))

theorem Offered.update {i : ℕ} {o o' : Obj} {reported : List ℕ} {offers offers' : List (ℕ × Dir)}
    (h : s.Offered P) (hp : s.phase = .polling reported offers) (ho : s.mem i = some o)
    (hmem : s'.mem = Function.update s.mem i (some o')) (hsub : ∀ e ∈ offers', e ∈ offers)
    (hP : ∀ d, (i, d) ∈ offers' → P d o → P d o') :
    ∀ e ∈ offers', ∀ x, s'.mem e.1 = some x → P e.2 x := by
  rintro ⟨j, d⟩ he x hx
  rw [hmem] at hx
  have hold := h reported offers hp (j, d) (hsub _ he)
  by_cases hj : j = i
  · subst hj
    rw [Function.update_self] at hx
    obtain rfl := Option.some.inj hx
    exact hP d he (hold o ho)
  · rw [Function.update_of_ne hj] at hx
    exact hold x hx

/-- **The rule for offers**: what holds of an event that is reported holds until it is offered. -/
theorem Steps.offered (hstep : s.Steps a s') (hw : s.Wf) (h : s.Offered P) (hP : Steady P)
    (hreport : ∀ i r o d, a = .report i r → s.mem i = some o → r.possible o.interest = true →
      r.allowed o = true → (i, d) ∈ r.offers i o.proactor.reactorEvents → P d o) :
    s'.Offered P := by
  intro reported offers hphase
  have hrest : ∀ {seen e rest}, s.phase = .polling seen (e :: rest) →
      ∀ d, (e.1, d) ∈ rest → d ≠ e.2 := by
    rintro seen ⟨i, d'⟩ rest hp d hd rfl
    exact (List.nodup_cons.mp (hw.traffic.offering hp).nodup).1 hd
  cases hstep with
  | new hp | tcp ho hf hp hk | udp ho hf hp hk | asyncStart ho hf hp =>
    exact absurd hphase (not_polling_of_client hp _ _)
  | free ho hf hp =>
    rw [eventFree_eq] at hphase
    exact absurd hphase (not_polling_of_client hp _ _)
  -- a step that another thread may take at any time
  | asyncSend ho hf hstarted => exact h.update hphase ho rfl (fun _ he ↦ he) fun _ _ ↦ hP.send
  | epollWait hp hq =>
    obtain ⟨-, rfl⟩ := Phase.polling.inj hphase
    exact nofun
  | @report i r o seen hp ho hi hr hallowed =>
    obtain ⟨-, rfl⟩ := Phase.polling.inj hphase
    rintro ⟨j, d⟩ he x hx
    obtain rfl : j = i := Report.fst_of_mem_offers he
    obtain rfl := Option.some.inj (ho.symm.trans hx)
    exact hreport j r o d rfl ho hr hallowed he
  | offerTcp hp ho hk =>
    obtain ⟨-, rfl⟩ := Phase.polling.inj hphase
    exact h.update hp ho rfl (fun _ ↦ List.mem_cons_of_mem _) fun d hd ↦
      hP.tcp (Tcp.offer_outcome hk) (hrest hp d hd)
  | offerUdp hp ho hk =>
    obtain ⟨-, rfl⟩ := Phase.polling.inj hphase
    exact h.update hp ho rfl (fun _ ↦ List.mem_cons_of_mem _) fun d hd ↦ hP.udp (hrest hp d hd)
  | offerAsync hp ho hk hd =>
    subst hd
    obtain ⟨-, rfl⟩ := Phase.polling.inj hphase
    exact h.update hp ho rfl (fun _ ↦ List.mem_cons_of_mem _) fun d hd ↦ hP.async (hrest hp d hd)
  | offerFull hp =>
    obtain ⟨-, rfl⟩ := Phase.polling.inj hphase
    exact fun e he ↦ h _ _ hp e (List.mem_cons_of_mem _ he)
  | timeoutFires ho hp hactive =>
    exact (ite_ne_polling _ (by simp) (by simp) _ _ hphase).elim
  | dispatchTcp hp hb ho => exact (ite_ne_polling _ (by simp) (by simp) _ _ hphase).elim
  | dispatchUdp hp hb ho => exact (ite_ne_polling _ (by simp) (by simp) _ _ hphase).elim
  | dispatchAsync hp hb ho => exact (ite_ne_polling _ (by simp) (by simp) _ _ hphase).elim
  | dispatchNone hp hb ho =>
    rw [deliver_phase, hp] at hphase
    cases hphase
  | _ => cases hphase

end IoLoop

end Nanoev
