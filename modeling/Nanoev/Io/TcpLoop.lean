import Nanoev.Io.Local

/-!
# The TCP events of a loop

Every TCP event of a loop takes the steps of the machine `TcpStep`, and its completions on the way
are those of the queue and of the batch that refer to it. What the machine keeps under a condition
on its steps therefore holds for all TCP events of a loop whose actions meet the condition.

The first use is the invariant `TcpView.Ok`, for a client that does not open a socket on an event in
the error state.
-/

namespace Nanoev

open Transition

namespace IoLoop

def tcpView (s : IoLoop) (i : ℕ) (t : Tcp) : TcpView := ⟨t, s.queued i, s.batched i⟩

/-- What an action does to TCP event `i`. -/
def does (a : Action) (i : ℕ) : TcpAct → Prop
  | .call c sys => a = .tcp i c sys
  | .timeout d sys => a = .timeoutFires i d sys
  | .offer _ sys => a = .offer sys
  | .dispatch _ sys => a = .dispatch sys
  | .free => a = .free i
  | .link => a = .processEndgame
  | .poll => a = .takeQueued

inductive NewView : TcpView → Prop
  | tcpNew : NewView ⟨.tcpNew, fun _ ↦ 0, fun _ ↦ 0⟩
  | client (u : Option ℕ) (fd : ℕ) : NewView ⟨.client u fd, fun _ ↦ 0, fun _ ↦ 0⟩

variable {s s' : IoLoop} {a : Action} {j : ℕ} {t' : Tcp}

theorem tcpView_eq {t : Tcp} {q b : Dir → ℕ} (hq : s.queued j = q) (hb : s.batched j = b) :
    s.tcpView j t = ⟨t, q, b⟩ := by
  rw [tcpView, hq, hb]

theorem tcpView_of_still {t : Tcp} (h : s.Still s' j) :
    s'.tcpView j t = ⟨t, s.queued j, s.batched j⟩ := tcpView_eq h.queued h.batched

theorem Local.tcpStep (h : s.Local a s' j) (hw : s.Wf) (ht' : s'.mem j = some (.tcp t')) :
    (s.mem j = some (.tcp t') ∧ s'.tcpView j t' = s.tcpView j t') ∨
      (s.mem j = none ∧ NewView (s'.tcpView j t')) ∨
      ∃ t act, s.mem j = some (.tcp t) ∧ does a j act ∧
        TcpStep (s.tcpView j t) act (s'.tcpView j t') := by
  cases h with
  | untouched hmem hstill => exact .inl ⟨hmem.symm.trans ht', tcpView_of_still hstill⟩
  | @created o hnone ho' hnew hq hb =>
    obtain rfl := Option.some.inj (ho'.symm.trans ht')
    refine .inr (.inl ⟨hnone, ?_⟩)
    rw [tcpView_eq hq hb]
    rcases hnew with ⟨type, htype⟩ | ⟨u, fd, hclient⟩
    · cases type <;> cases htype
      exact .tcpNew
    · obtain rfl := Obj.tcp.inj hclient
      exact .client u fd
  | released hnone hidle hcount => rw [hnone] at ht'; cases ht'
  | polled ha hmem hbatch hmoved hpending =>
    exact .inr (.inr ⟨t', .poll, hmem.symm.trans ht', ha, .poll hbatch hmoved⟩)
  | @linked o n ha ho ho' hstill =>
    have heq := Option.some.inj (ho'.symm.trans ht')
    cases o with
    | tcp t =>
      obtain rfl := Obj.tcp.inj heq
      rw [tcpView_of_still hstill]
      exact .inr (.inr ⟨t, .link, ho, ha, .link⟩)
    | udp | async => cases heq
  | @freed o n ha ho hf hdefers ho' hstill =>
    have heq := Option.some.inj (ho'.symm.trans ht')
    cases o with
    | tcp t =>
      rw [tcpView_of_still hstill]
      refine .inr (.inr ⟨t, .free, ho, ha, ?_⟩)
      rw [Obj.freed, Tcp.tcpFree, Tcp.closeTcpSocket_eq] at heq
      obtain rfl := Obj.tcp.inj heq
      exact .free ((hw.memory.deleted ho).trans hf) (Bool.or_eq_true_iff.mp hdefers)
    | udp | async => cases heq
  | @tcpCall t t₁ c sys effects ret ha ho hf hk hout ho' hq hb =>
    obtain rfl := Obj.tcp.inj (Option.some.inj (ho'.symm.trans ht'))
    refine .inr (.inr ⟨t, .call c sys, ho, ha, ?_⟩)
    rw [tcpView_eq hq hb]
    exact .call ((hw.memory.deleted ho).trans hf) hk hout
  | @tcpTimeout t t₁ d sys effects ha ho hactive hbatch hout ho' hstill =>
    obtain rfl := Obj.tcp.inj (Option.some.inj (ho'.symm.trans ht'))
    refine .inr (.inr ⟨t, .timeout d sys, ho, ha, ?_⟩)
    rw [tcpView_of_still hstill]
    exact .timeout hactive hbatch hout
  | @tcpOffer t t₁ d sys completed effects ha ho hnone hout ho' hq hb =>
    obtain rfl := Obj.tcp.inj (Option.some.inj (ho'.symm.trans ht'))
    refine .inr (.inr ⟨t, .offer d sys, ho, ha, ?_⟩)
    rw [tcpView_eq hq hb]
    exact .offer hnone hout
  | @tcpDispatch t t₁ d sys client effects ha ho hbatch hout ho' hq hb =>
    obtain rfl := Obj.tcp.inj (Option.some.inj (ho'.symm.trans ht'))
    refine .inr (.inr ⟨t, .dispatch d sys, ho, ha, ?_⟩)
    rw [tcpView_eq hq hb]
    exact .dispatch hbatch hout
  -- the other functions work on events of other types
  | asyncStart _ _ ho' | asyncSend _ _ ho' => cases Option.some.inj (ho'.symm.trans ht')
  | asyncOffer _ _ _ _ ho' => cases Option.some.inj (ho'.symm.trans ht')
  | asyncDispatch _ _ _ ho' => cases Option.some.inj (ho'.symm.trans ht')
  | udpCall _ _ _ _ ho' | udpOffer _ _ _ _ ho' | udpDispatch _ _ _ ho' =>
    cases Option.some.inj (ho'.symm.trans ht')

/-- All TCP events of the loop satisfy `P`. -/
def TcpInv (P : TcpView → Prop) (s : IoLoop) : Prop :=
  ∀ i t, s.mem i = some (.tcp t) → P (s.tcpView i t)

theorem init_tcpInv (P : TcpView → Prop) : init.TcpInv P := by
  intro i t ht
  cases ht

/-- **The rule for TCP events.** What new events satisfy and the steps of the machine keep, under a
condition that the action meets on all events, all TCP events of the loop keep. -/
theorem TcpInv.step {P : TcpView → Prop} {A : TcpView → TcpAct → Prop} (h : s.TcpInv P)
    (hw : s.Wf) (hstep : s.step a = some s') (hnew : ∀ v, NewView v → P v)
    (hP : ∀ v act v', TcpStep v act v' → P v → A v act → P v')
    (hok : ∀ i t act, s.mem i = some (.tcp t) → does a i act → A (s.tcpView i t) act) :
    s'.TcpInv P := by
  intro j t' ht'
  rcases ((step_eq_some hstep).local hw j).tcpStep hw ht' with
    ⟨ht, hview⟩ | ⟨-, hview⟩ | ⟨t, act, ht, hdoes, htcp⟩
  · rw [hview]
    exact h j t' ht
  · exact hnew _ hview
  · exact hP _ _ _ htcp (h j t ht) (hok j t act ht hdoes)

/-! ## The invariant of the TCP events -/

/-- The client does not call connect or listen on a TCP event in the error state. -/
def noReconnect (s : IoLoop) : Action → Bool
  | .tcp i c _ =>
    match s.mem i with
    | some (.tcp t) => !(Tcp.opens c && t.error)
    | _ => true
  | _ => true

theorem noReconnect_does {i : ℕ} {t : Tcp} {act : TcpAct} (h : s.noReconnect a = true)
    (ht : s.mem i = some (.tcp t)) (hdoes : does a i act) : act.noReconnect (s.tcpView i t) := by
  cases act with
  | call c sys =>
    intro hopen
    rw [does] at hdoes
    rw [hdoes, noReconnect, ht] at h
    dsimp only at h
    rw [hopen, Bool.true_and, Bool.not_eq_true'] at h
    exact h
  | _ => trivial

theorem client_ok (u : Option ℕ) (fd : ℕ) :
    TcpView.Ok ⟨.client u fd, fun _ ↦ 0, fun _ ↦ 0⟩ :=
  .mk' (Side.Idle.ok ⟨rfl, rfl, rfl, rfl, rfl⟩) (Side.Idle.ok ⟨rfl, rfl, rfl, rfl, rfl⟩)
    (fun _ ↦ rfl) fun _ _ hsock ↦ by cases hsock

theorem NewView.ok {v : TcpView} (h : NewView v) : v.Ok := by
  cases h with
  | tcpNew => exact tcpNew_ok
  | client u fd => exact client_ok u fd

/-- The invariant holds for every TCP event of a loop whose client does not open sockets on events
in the error state. -/
theorem tcpOk_step (h : s.TcpInv TcpView.Ok) (hw : s.Wf) (hstep : s.step a = some s')
    (ha : s.noReconnect a = true) : s'.TcpInv TcpView.Ok :=
  h.step hw hstep (fun _ hv ↦ hv.ok) (fun _ _ _ htcp hv hact ↦ htcp.ok hv hact)
    fun _ _ _ ht hdoes ↦ noReconnect_does ha ht hdoes

def tcpAt (s : IoLoop) (i : ℕ) : Option Tcp :=
  match s.mem i with
  | some (.tcp t) => some t
  | _ => none

theorem tcpAt_eq_some (h : s.tcpAt j = some t') : s.mem j = some (.tcp t') := by
  unfold tcpAt at h
  split at h
  · next x hx =>
    obtain rfl := Option.some.inj h
    exact hx
  · cases h

theorem exists_tcpAt_of_exec {ok : IoLoop → Action → Prop} [∀ s a, Decidable (ok s a)]
    {as : List Action} {β : Type*} {f : IoLoop → Tcp → β} {b : β}
    (h : ((exec step ok init as).bind fun s ↦ (s.tcpAt j).map (f s)) = some b) :
    ∃ s t, exec step ok init as = some s ∧ s.mem j = some (.tcp t) ∧ f s t = b := by
  obtain ⟨s, hs, h⟩ := Option.bind_eq_some_iff.mp h
  obtain ⟨t, ht, h⟩ := Option.map_eq_some_iff.mp h
  exact ⟨s, t, hs, tcpAt_eq_some ht, h⟩

end IoLoop

end Nanoev
