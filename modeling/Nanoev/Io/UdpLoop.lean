import Nanoev.Io.Local

/-!
# The UDP events of a loop

A UDP event as a machine of its own, in the way of a TCP event: what is done to it, with the numbers
of its completions in the queue of the poller and in the batch, and the buffer of the read that is
pending on it according to the record of the loop.
-/

namespace Nanoev

open Transition

/-- A UDP event, its completions on the way and the buffer of its pending read. -/
structure UdpView where
  u : Udp
  queued : Dir → ℕ
  batched : Dir → ℕ
  pending : Option IoBuf

inductive UdpAct
  | call (c : UdpCall)
  | offer (d : Dir)
  | dispatch (d : Dir) (sys : Sys)
  | free
  /-- The `next` field is changed. -/
  | link
  /-- Completions move from the queue to the batch. -/
  | poll

inductive UdpStep : UdpView → UdpAct → UdpView → Prop
  | call {v : UdpView} {c op fresh u' effects ret} (hlive : v.u.deleted = false)
      (h : Udp.CallOutcome v.u op fresh c u' effects ret) :
    UdpStep v (.call c)
      ⟨u', fun d ↦ v.queued d + submits effects d, v.batched,
        (IoLoop.startedRead c ret).or v.pending⟩
  | offer {v : UdpView} {d cr cw} (completed : Bool) (hnone : v.queued d = 0 ∧ v.batched d = 0) :
    UdpStep v (.offer d)
      ⟨{ v.u with ctxRead := cr, ctxWrite := cw }, v.queued,
        Function.update v.batched d (v.batched d + if completed then 1 else 0), v.pending⟩
  | dispatch {v : UdpView} {d sys u' effects} (hbatch : 0 < v.batched d)
      (h : Udp.DispatchOutcome v.u sys d u' effects) :
    UdpStep v (.dispatch d sys)
      ⟨u', v.queued, Function.update v.batched d (v.batched d - 1),
        if d = .read then none else v.pending⟩
  | free {v : UdpView} {n} (hlive : v.u.deleted = false) :
    UdpStep v .free
      ⟨{ v.u with sock := none, deleted := true, next := n }, v.queued, v.batched, v.pending⟩
  | link {v : UdpView} {n} :
    UdpStep v .link ⟨{ v.u with next := n }, v.queued, v.batched, v.pending⟩
  | poll {v : UdpView} {q b} (hbatch : ∀ d, v.batched d = 0)
      (hmoved : ∀ d, q d + b d = v.queued d) : UdpStep v .poll ⟨v.u, q, b, v.pending⟩

inductive UdpView.New : UdpView → Prop
  | udpNew (p : Option IoBuf) : New ⟨.udpNew, fun _ ↦ 0, fun _ ↦ 0, p⟩

namespace IoLoop

def udpView (s : IoLoop) (i : ℕ) (u : Udp) : UdpView :=
  ⟨u, s.queued i, s.batched i, s.udpPending i⟩

/-- What an action does to UDP event `i`. -/
def doesUdp (s : IoLoop) (a : Action) (i : ℕ) : UdpAct → Prop
  | .call c => ∃ sys, a = .udp i c sys
  | .offer d => ∃ sys reported offers, a = .offer sys ∧
      s.phase = .polling reported ((i, d) :: offers)
  | .dispatch d sys => a = .dispatch sys ∧ ∃ rest, s.batch = (i, d) :: rest
  | .free => a = .free i
  | .link => a = .processEndgame
  | .poll => a = .takeQueued

variable {s s' : IoLoop} {a : Action} {j : ℕ} {u' : Udp}

theorem udpView_eq {u : Udp} {q b : Dir → ℕ} {p : Option IoBuf} (hq : s.queued j = q)
    (hb : s.batched j = b) (hp : s.udpPending j = p) : s.udpView j u = ⟨u, q, b, p⟩ := by
  rw [udpView, hq, hb, hp]

theorem udpView_of_still {u : Udp} (h : s.Still s' j) :
    s'.udpView j u = ⟨u, s.queued j, s.batched j, s.udpPending j⟩ :=
  udpView_eq h.queued h.batched h.pending

theorem Local.udpStep (h : s.Local a s' j) (hw : s.Wf) (hu' : s'.mem j = some (.udp u')) :
    (s.mem j = some (.udp u') ∧ s'.udpView j u' = s.udpView j u') ∨
      (s.mem j = none ∧ (s'.udpView j u').New) ∨
      ∃ u act, s.mem j = some (.udp u) ∧ s.doesUdp a j act ∧
        UdpStep (s.udpView j u) act (s'.udpView j u') := by
  cases h with
  | untouched hmem hstill => exact .inl ⟨hmem.symm.trans hu', udpView_of_still hstill⟩
  | @created o hnone ho' hnew hq hb =>
    obtain rfl := Option.some.inj (ho'.symm.trans hu')
    refine .inr (.inl ⟨hnone, ?_⟩)
    rw [udpView_eq hq hb rfl]
    rcases hnew with ⟨type, htype⟩ | ⟨x, fd, hclient⟩
    · cases type <;> cases htype
      exact .udpNew _
    · cases hclient
  | released hnone hidle hcount => rw [hnone] at hu'; cases hu'
  | polled ha hmem hbatch hmoved hpending =>
    refine .inr (.inr ⟨u', .poll, hmem.symm.trans hu', ha, ?_⟩)
    rw [udpView_eq rfl rfl hpending]
    exact .poll hbatch hmoved
  | @linked o n ha ho ho' hstill =>
    have heq := Option.some.inj (ho'.symm.trans hu')
    cases o with
    | udp u =>
      obtain rfl := Obj.udp.inj heq
      rw [udpView_of_still hstill]
      exact .inr (.inr ⟨u, .link, ho, ha, .link⟩)
    | tcp | async => cases heq
  | @freed o n ha ho hf hdefers ho' hstill =>
    have heq := Option.some.inj (ho'.symm.trans hu')
    cases o with
    | udp u =>
      rw [udpView_of_still hstill]
      refine .inr (.inr ⟨u, .free, ho, ha, ?_⟩)
      rw [Obj.freed, Udp.udpFree_eq] at heq
      obtain rfl := Obj.udp.inj heq
      exact .free ((hw.memory.deleted ho).trans hf)
    | tcp | async => cases heq
  | @udpCall u u₁ c sys effects ret ha ho hf hout ho' hq hb hpending =>
    obtain rfl := Obj.udp.inj (Option.some.inj (ho'.symm.trans hu'))
    refine .inr (.inr ⟨u, .call c, ho, ⟨sys, ha⟩, ?_⟩)
    rw [udpView_eq hq hb hpending]
    exact .call ((hw.memory.deleted ho).trans hf) hout
  | @udpOffer u d sys reported offers ha hp ho hnone ho' hq hb hpending =>
    obtain rfl := Obj.udp.inj (Option.some.inj (ho'.symm.trans hu'))
    refine .inr (.inr ⟨u, .offer d, ho, ⟨sys, reported, offers, ha, hp⟩, ?_⟩)
    obtain ⟨cr, cw, hu⟩ := u.reactorCb_eq d sys
    rw [udpView_eq hq hb hpending, hu]
    exact .offer _ hnone
  | @udpDispatch u d sys rest ha ho hbatch ho' hq hb hpending =>
    obtain rfl := Obj.udp.inj (Option.some.inj (ho'.symm.trans hu'))
    refine .inr (.inr ⟨u, .dispatch d sys, ho, ⟨ha, rest, hbatch⟩, ?_⟩)
    rw [udpView_eq hq hb hpending]
    exact .dispatch (batched_pos hbatch) (u.dispatch_outcome d sys)
  | tcpCall _ _ _ _ _ ho' | tcpTimeout _ _ _ _ _ ho' | tcpOffer _ _ _ _ ho'
  | tcpDispatch _ _ _ _ ho' | asyncStart _ _ ho' | asyncSend _ _ ho' | asyncOffer _ _ _ _ ho'
  | asyncDispatch _ _ _ ho' => cases Option.some.inj (ho'.symm.trans hu')

/-- All UDP events of the loop satisfy `P`. -/
def UdpInv (P : UdpView → Prop) (s : IoLoop) : Prop :=
  ∀ i u, s.mem i = some (.udp u) → P (s.udpView i u)

theorem init_udpInv (P : UdpView → Prop) : init.UdpInv P := by
  intro i u hu
  cases hu

/-- **The rule for UDP events**, as for TCP events. -/
theorem UdpInv.step {P : UdpView → Prop} {A : UdpView → UdpAct → Prop} (h : s.UdpInv P)
    (hw : s.Wf) (hstep : s.step a = some s') (hnew : ∀ v, v.New → P v)
    (hP : ∀ v act v', UdpStep v act v' → P v → A v act → P v')
    (hok : ∀ i u act, s.mem i = some (.udp u) → s.doesUdp a i act → A (s.udpView i u) act) :
    s'.UdpInv P := by
  intro j u' hu'
  rcases ((step_eq_some hstep).local hw j).udpStep hw hu' with
    ⟨hu, hview⟩ | ⟨-, hview⟩ | ⟨u, act, hu, hdoes, hudp⟩
  · rw [hview]
    exact h j u' hu
  · exact hnew _ hview
  · exact hP _ _ _ hudp (h j u hu) (hok j u act hu hdoes)

def udpAt (s : IoLoop) (i : ℕ) : Option Udp :=
  match s.mem i with
  | some (.udp u) => some u
  | _ => none

theorem udpAt_eq_some (h : s.udpAt j = some u') : s.mem j = some (.udp u') := by
  unfold udpAt at h
  split at h
  · next x hx =>
    obtain rfl := Option.some.inj h
    exact hx
  · cases h

end IoLoop

end Nanoev
