import Nanoev.Iocp.Late

/-!
# Runs on a completion port

In every run in which no call loses an operation that the system has taken over, and the client
leaves an event in the error state alone, each callback is invoked once, when the first of timeout
and packet comes, and a flag is set for as long as a packet is outstanding. So the memory that a
packet refers to is there when it arrives.

A call loses an operation when there is no memory for its timeout.
-/

namespace Nanoev.Iocp

open Transition
open Tcp (opens)

namespace Loop

variable {s s' : Loop} {i n op : ℕ} {d : Dir} {t t' x : Tcp}

/-! ## The events of a loop

An operation that the system has taken over refers to the memory of its event until the packet has
arrived. The flag of the direction is set for as long, also after a timeout has called the callback,
and keeps the event from being released. -/

structure Events (s : Loop) : Prop where
  mem_lt : ∀ {i}, s.nextEvent ≤ i → s.mem i = none
  freed_lt : ∀ {i}, s.nextEvent ≤ i → s.freed i = false
  deleted : ∀ {i t}, s.mem i = some t → t.deleted = s.freed i
  event : ∀ {i t}, s.mem i = some t → Event t s.settled (s.outstanding i)
  gone : ∀ {i}, s.mem i = none → ∀ d, s.outstanding i d = []
  lone_lt : ∀ {i}, i ∈ s.lone → i < s.nextEvent
  lone : ∀ {i t}, i ∈ s.lone → s.mem i = some t → Spent t

theorem init_events : init.Events where
  mem_lt := fun _ ↦ rfl
  freed_lt := fun _ ↦ rfl
  deleted := nofun
  event := nofun
  gone := fun _ _ ↦ rfl
  lone_lt := nofun
  lone := nofun

namespace Events

theorem lt (h : s.Events) (ho : s.mem i = some t) : i < s.nextEvent := by
  by_contra hle
  rw [h.mem_lt (Nat.not_lt.mp hle)] at ho
  cases ho

theorem mem_eq (h : s.Events) (hop : op ∈ s.outstanding i d) : ∃ t, s.mem i = some t := by
  refine Option.ne_none_iff_exists'.mp fun hnone ↦ ?_
  rw [h.gone hnone d] at hop
  cases hop

theorem act (h : s.Events) (ho : s.mem i = some t)
    (hmem : s'.mem = Function.update s.mem i (some t')) (hnext : s.nextEvent ≤ s'.nextEvent)
    (hfreed : ∀ j ≠ i, s'.freed j = s.freed j) (hdeleted : t'.deleted = s'.freed i)
    (hevent : Event t' s'.settled (s'.outstanding i))
    (hout : ∀ j ≠ i, s'.outstanding j = s.outstanding j)
    (hset : ∀ j ≠ i, ∀ d, ∀ op ∈ s.outstanding j d, op ∈ s'.settled ↔ op ∈ s.settled)
    (hlone : s'.lone = s.lone ∨ s'.lone = i :: s.lone)
    (hspent : i ∈ s'.lone → Spent t') : s'.Events := by
  have hlt := h.lt ho
  have hself : s'.mem i = some t' := by rw [hmem, Function.update_self]
  have hsame : ∀ j ≠ i, s'.mem j = s.mem j := fun j hj ↦ by rw [hmem, Function.update_of_ne hj]
  have hmemlone : ∀ {j}, j ∈ s'.lone → j = i ∨ j ∈ s.lone := by
    intro j hj
    rcases hlone with hlone | hlone
    · exact .inr (hlone ▸ hj)
    · exact List.mem_cons.mp (hlone ▸ hj)
  refine ⟨fun {j} hj ↦ ?_, fun {j} hj ↦ ?_, fun {j u} hu ↦ ?_, fun {j u} hu ↦ ?_,
    fun {j} hnone e ↦ ?_, fun {j} hj ↦ ?_, fun {j u} hj hu ↦ ?_⟩
  · rw [hsame j (hlt.trans_le (hnext.trans hj)).ne']
    exact h.mem_lt (hnext.trans hj)
  · rw [hfreed j (hlt.trans_le (hnext.trans hj)).ne']
    exact h.freed_lt (hnext.trans hj)
  · by_cases hji : j = i
    · subst hji
      obtain rfl := Option.some.inj (hself.symm.trans hu)
      exact hdeleted
    · rw [hfreed j hji]
      exact h.deleted ((hsame j hji).symm.trans hu)
  · by_cases hji : j = i
    · subst hji
      obtain rfl := Option.some.inj (hself.symm.trans hu)
      exact hevent
    · rw [hout j hji]
      exact (h.event ((hsame j hji).symm.trans hu)).settled_congr (hset j hji)
  · by_cases hji : j = i
    · subst hji
      rw [hself] at hnone
      cases hnone
    · rw [hout j hji]
      exact h.gone ((hsame j hji).symm.trans hnone) e
  · rcases hmemlone hj with rfl | hj
    · exact hlt.trans_le hnext
    · exact (h.lone_lt hj).trans_le hnext
  · by_cases hji : j = i
    · subst hji
      obtain rfl := Option.some.inj (hself.symm.trans hu)
      exact hspent hj
    · exact h.lone ((hmemlone hj).resolve_left hji) ((hsame j hji).symm.trans hu)

theorem create (h : s.Events) (hnone : s.mem n = none) (hlt : n < s.nextEvent)
    (hfreed : s.freed n = false) (hlone : n ∉ s.lone) (hdeleted : x.deleted = false)
    (hevent : Event x s.settled (s.outstanding n)) :
    Events { s with mem := Function.update s.mem n (some x) } := by
  have hself : Function.update s.mem n (some x) n = some x := Function.update_self ..
  refine ⟨fun {j} hj ↦ ?_, h.freed_lt, fun {j u} hu ↦ ?_, fun {j u} hu ↦ ?_, fun {j} hj e ↦ ?_,
    h.lone_lt, fun {j u} hj hu ↦ ?_⟩
  · show Function.update s.mem n (some x) j = none
    rw [Function.update_of_ne (hlt.trans_le hj).ne']
    exact h.mem_lt hj
  · by_cases hjn : j = n
    · subst hjn
      obtain rfl := Option.some.inj (hself.symm.trans hu)
      rw [hdeleted, hfreed]
    · exact h.deleted ((Function.update_of_ne hjn _ _).symm.trans hu)
  · by_cases hjn : j = n
    · subst hjn
      obtain rfl := Option.some.inj (hself.symm.trans hu)
      exact hevent
    · exact h.event ((Function.update_of_ne hjn _ _).symm.trans hu)
  · by_cases hjn : j = n
    · subst hjn
      exact h.gone hnone e
    · exact h.gone ((Function.update_of_ne hjn _ _).symm.trans hj) e
  · have hjn : j ≠ n := fun hjn ↦ hlone (hjn ▸ hj)
    exact h.lone hj ((Function.update_of_ne hjn _ _).symm.trans hu)

theorem release {released : List ℕ} {endgame : List ℕ} {freed : ℕ → Bool} {p : ℕ → Prop}
    [DecidablePred p] (h : s.Events) (hidle : ∀ j, p j → ∀ d, s.outstanding j d = [])
    (hfreed : ∀ j, ¬p j → freed j = s.freed j) (hlt : ∀ j, p j → j < s.nextEvent) :
    Events { s with
      mem := fun j ↦ if p j then none else s.mem j
      endgame, released, freed } := by
  have hmem : ∀ {j u}, (if p j then none else s.mem j) = some u → ¬p j ∧ s.mem j = some u := by
    intro j u hu
    by_cases hj : p j
    · rw [if_pos hj] at hu
      cases hu
    · rw [if_neg hj] at hu
      exact ⟨hj, hu⟩
  refine ⟨fun {j} hj ↦ ?_, fun {j} hj ↦ ?_, fun {j u} hu ↦ ?_, fun hu ↦ h.event (hmem hu).2,
    fun {j} hj e ↦ ?_, h.lone_lt, fun hj hu ↦ h.lone hj (hmem hu).2⟩
  · show (if p j then none else s.mem j) = none
    rw [h.mem_lt hj, ite_self]
  · show freed j = false
    rw [hfreed j fun hp ↦ absurd (hlt j hp) (Nat.not_lt.mpr hj)]
    exact h.freed_lt hj
  · obtain ⟨hj, hu⟩ := hmem hu
    show u.deleted = freed j
    rw [hfreed j hj]
    exact h.deleted hu
  · by_cases hp : p j
    · exact hidle j hp e
    · exact h.gone ((if_neg hp).symm.trans hj) e

end Events

/-! ## The operations -/

/-- What holds of the operations: an operation belongs to one direction of one event, and the
callback of each settled operation has been invoked once, and no other. -/
structure Ops (s : Loop) : Prop where
  owner : ∀ {i j d e op}, op ∈ s.outstanding i d → op ∈ s.outstanding j e → i = j ∧ d = e
  op_lt : ∀ {i d op}, op ∈ s.outstanding i d → op < s.nextOp
  settled_lt : ∀ {op}, op ∈ s.settled → op < s.nextOp
  calls : ∀ op, (s.calls.map Call.op).count op = if op ∈ s.settled then 1 else 0

theorem init_ops : init.Ops where
  owner := nofun
  op_lt := nofun
  settled_lt := nofun
  calls := fun _ ↦ rfl

/-- A callback is invoked for an operation that is settled now, or there is nothing to do. -/
theorem count_settle {ops new settled settled' : List ℕ}
    (h : ∀ x, ops.count x = if x ∈ settled then 1 else 0)
    (hcase : new = [op] ∧ op ∉ settled ∧ settled' = op :: settled ∨
      new = [] ∧ ∀ x, x ∈ settled' ↔ x ∈ settled) (x : ℕ) :
    (ops ++ new).count x = if x ∈ settled' then 1 else 0 := by
  rcases hcase with ⟨rfl, hop, rfl⟩ | ⟨rfl, hiff⟩
  · rw [List.count_append, h x]
    by_cases hx : x = op
    · subst hx
      rw [if_neg hop, if_pos List.mem_cons_self, List.count_cons_self, List.count_nil]
    · have hcons : x ∈ op :: settled ↔ x ∈ settled := by rw [List.mem_cons, or_iff_right hx]
      rw [List.count_cons_of_ne (Ne.symm hx), List.count_nil, Nat.add_zero]
      simp only [hcons]
  · rw [List.append_nil, h x]
    simp only [hiff x]

/-- The callback is invoked when the packet comes first, on an event that has not been freed. -/
theorem settle_of_completed {settled : List ℕ} {calls : List Call} {freed : Bool}
    (h : Side t settled d [op]) (hc : Completed t d t' calls) (hdeleted : t.deleted = freed) :
    calls.map Call.op = [op] ∧ op ∉ settled ∧
        (if freed then settled else op :: settled) = op :: settled ∨
      calls.map Call.op = [] ∧ ∀ x, x ∈ (if freed then settled else op :: settled) ↔
        x ∈ settled := by
  cases h with
  | pending _ hcb _ _ hopen =>
    have hcalls := hc.done op hcb
    rw [hdeleted] at hcalls
    cases freed with
    | false => exact .inl ⟨hcalls, hopen, rfl⟩
    | true => exact .inr ⟨hcalls, fun _ ↦ Iff.rfl⟩
  | late _ hcb _ hsettled =>
    refine .inr ⟨by rw [(hc.late (hcb _ (kindOf_dir _ _))).1]; rfl, fun x ↦ ?_⟩
    cases freed with
    | true => exact Iff.rfl
    | false =>
      show x ∈ op :: settled ↔ _
      rw [List.mem_cons, or_iff_right_of_imp]
      rintro rfl
      exact hsettled

theorem mem_of_mem_arrived {out : ℕ → Dir → List ℕ} {j : ℕ} {e : Dir} {x : ℕ}
    (hx : x ∈ Function.update out i (Function.update (out i) d []) j e) : x ∈ out j e := by
  by_cases hji : j = i
  · subst hji
    rw [Function.update_self] at hx
    by_cases hed : e = d
    · rw [hed, Function.update_self] at hx
      cases hx
    · rwa [Function.update_of_ne hed] at hx
  · rwa [Function.update_of_ne hji] at hx

/-! ## The steps

A callback is stored when its operation is started, and taken out by the packet or by the timeout,
whichever comes first; the other then finds none. -/

structure Inv (s : Loop) : Prop where
  events : s.Events
  ops : s.Ops

theorem init_inv : init.Inv := ⟨init_events, init_ops⟩

namespace Inv

theorem settled_iff {settled' : List ℕ} (h : s.Inv) (hop : op ∈ s.outstanding i d)
    (hsettled : settled' = s.settled ∨ settled' = op :: s.settled) {j : ℕ} {e : Dir}
    (hne : ¬(i = j ∧ d = e)) {op' : ℕ} (hop' : op' ∈ s.outstanding j e) :
    op' ∈ settled' ↔ op' ∈ s.settled := by
  rcases hsettled with rfl | rfl
  · rfl
  · rw [List.mem_cons, or_iff_right]
    rintro rfl
    exact hne (h.ops.owner hop hop')

theorem eventNew (h : s.Inv) : s.eventNew.Inv := by
  have hgrown : Events { s with nextEvent := s.nextEvent + 1 } :=
    ⟨fun hj ↦ h.events.mem_lt (Nat.le_of_succ_le hj),
      fun hj ↦ h.events.freed_lt (Nat.le_of_succ_le hj),
      h.events.deleted, h.events.event, h.events.gone, fun hj ↦
      Nat.lt_succ_of_lt (h.events.lone_lt hj),
      h.events.lone⟩
  have hnone := h.events.mem_lt (Nat.le_refl s.nextEvent)
  refine ⟨?_, h.ops.owner, h.ops.op_lt, h.ops.settled_lt, h.ops.calls⟩
  exact hgrown.create hnone (Nat.lt_succ_self _) (h.events.freed_lt (Nat.le_refl _))
    (fun hl ↦ absurd (h.events.lone_lt hl) (Nat.lt_irrefl _)) rfl (.tcpNew (h.events.gone hnone))

theorem eventFree (h : s.Inv) (ho : s.mem i = some t) : (s.eventFree i t).Inv := by
  have hevent := h.events.event ho
  unfold Loop.eventFree
  dsimp only
  split
  · refine ⟨?_, h.ops.owner, h.ops.op_lt, h.ops.settled_lt, h.ops.calls⟩
    have hfreed : Function.update s.freed i true i = true := Function.update_self ..
    refine h.events.act ho rfl le_rfl (fun j hj ↦ Function.update_of_ne hj _ _) hfreed.symm
      hevent.freed (fun _ _ ↦ rfl) (fun _ _ _ _ _ ↦ Iff.rfl) (.inl rfl)
      fun hl ↦ ?_
    obtain ⟨herror, -, hcode, hcb, -⟩ := h.events.lone hl ho
    rw [Tcp.tcpFree, Tcp.closeTcpSocket_eq]
    refine ⟨herror, rfl, hcode, ?_, ?_⟩
    · intro k
      rw [← hcb k]
      cases k <;> rfl
    · rintro (_ | _) <;> rfl
  · next hflags =>
    rw [Bool.not_eq_true, Bool.or_eq_false_iff] at hflags
    have hnone : Function.update s.mem i none = fun j ↦ if j = i then none else s.mem j :=
      funext fun j ↦ Function.update_apply ..
    refine ⟨?_, h.ops.owner, h.ops.op_lt, h.ops.settled_lt, h.ops.calls⟩
    rw [hnone]
    refine h.events.release (fun j hj e ↦ ?_) (fun j hj ↦ Function.update_of_ne hj _ _)
      fun j hj ↦ ?_
    · rw [hj]
      cases e with
      | read => exact (hevent.side .read).eq_nil hflags.1
      | write => exact (hevent.side .write).eq_nil hflags.2
    · rw [hj]
      exact h.events.lt ho

theorem call {c : TcpCall} {sys : Sys} (h : s.Inv) (ho : s.mem i = some t)
    (hlive : s.freed i = false) (hsober : s.sober (.call i c sys) = true)
    (hreported : s.reported (.call i c sys) = true) : (s.call i t c sys).Inv := by
  have hevent := h.events.event ho
  have hdeleted : t.deleted = false := (h.events.deleted ho).trans hlive
  have hsober : opens c = true → t.error = false := by
    intro hc
    rw [sober, ho, hc, Option.any_some, Bool.true_and, Bool.not_eq_true'] at hsober
    exact hsober
  have hout := @run_outcome t s.nextOp sys s.fresh c
  unfold Loop.call
  simp only [reported, ho] at hreported
  rcases hrun : run c t s.nextOp sys s.fresh with ⟨t', effects, ret⟩
  rw [hrun] at hout hreported
  have hreported : ret = .success ∨ ∀ d, .submit d ∉ effects := by
    rw [Bool.or_eq_true, decide_eq_true_eq, Bool.not_eq_true', List.any_eq_false] at hreported
    exact hreported.imp_right fun hnone d hd ↦ hnone _ hd rfl
  have hop : s.nextOp ∉ s.settled := fun hmem ↦ absurd (h.ops.settled_lt hmem) (Nat.lt_irrefl _)
  have hself : Function.update s.outstanding i (started (s.outstanding i) s.nextOp effects) i =
      started (s.outstanding i) s.nextOp effects := Function.update_self ..
  -- an operation is one there was or the one that is started
  have hmem : ∀ {j d x}, x ∈ Function.update s.outstanding i
      (started (s.outstanding i) s.nextOp effects) j d → x ∈ s.outstanding j d ∨
        x = s.nextOp ∧ j = i ∧ .submit d ∈ effects := by
    intro j d x hx
    by_cases hji : j = i
    · subst hji
      rw [hself, started] at hx
      refine (List.mem_append.mp hx).imp_right fun hx ↦ ?_
      split at hx
      · next hd => exact ⟨List.mem_singleton.mp hx, rfl, hd⟩
      · cases hx
    · rw [Function.update_of_ne hji] at hx
      exact .inl hx
  refine ⟨?_, ?_, ?_, fun hx ↦ Nat.lt_succ_of_lt (h.ops.settled_lt hx), h.ops.calls⟩
  · refine h.events.act ho rfl le_rfl (fun _ _ ↦ rfl)
      ((hout.deleted_eq hreported).trans (h.events.deleted ho)) ?_
      (fun j hj ↦ Function.update_of_ne hj _ _) (fun _ _ _ _ _ ↦ Iff.rfl) (.inl rfl)
      fun hl ↦ (h.events.lone hl ho).call hout hsober hreported
    show Event t' s.settled (Function.update s.outstanding i
      (started (s.outstanding i) s.nextOp effects) i)
    rw [hself]
    exact hevent.call hout hdeleted hsober hreported hop
  · intro j k d e x hx hx'
    rcases hmem hx with hx | ⟨rfl, rfl, hd⟩
    · rcases hmem hx' with hx' | ⟨rfl, -⟩
      · exact h.ops.owner hx hx'
      · exact absurd (h.ops.op_lt hx) (Nat.lt_irrefl _)
    · rcases hmem hx' with hx' | ⟨-, rfl, he⟩
      · exact absurd (h.ops.op_lt hx') (Nat.lt_irrefl _)
      · exact ⟨rfl, hout.submit_unique hreported hd he⟩
  · intro j d x hx
    rcases hmem hx with hx | ⟨rfl, -⟩
    · exact Nat.lt_succ_of_lt (h.ops.op_lt hx)
    · exact Nat.lt_succ_self _

theorem timeoutFires (h : s.Inv) (ho : s.mem i = some t) (hactive : (t.timeout d).active = true) :
    (s.timeoutFires i t d).Inv := by
  have hevent := h.events.event ho
  have hlive : s.freed i = false := by
    rw [← h.events.deleted ho]
    by_contra hdel
    rw [hevent.deleted (Bool.eq_true_of_not_eq_false hdel) d] at hactive
    cases hactive
  have hside := hevent.side d
  cases hl : s.outstanding i d with
  | nil =>
    rw [hl] at hside
    cases hside with
    | idle _ _ hτ =>
      rw [hτ] at hactive
      cases hactive
  | cons op l =>
    rw [hl] at hside
    cases hside with
    | late _ _ hτ =>
      -- a direction whose callback is gone has no timeout
      rw [hτ] at hactive
      cases hactive
    | pending hflag hcb hrest hτ hopen =>
      -- the operation is settled here, and its packet is outstanding still
      have hop : op ∈ s.outstanding i d := by
        rw [hl]
        exact List.mem_singleton_self op
      have hx := timeoutFires_spec (kindOf_dir t.connected d) hflag (hτ hactive) hcb
      unfold Loop.timeoutFires
      rcases hfires : Iocp.timeoutFires t d with ⟨t', effects⟩
      rw [hfires] at hx
      dsimp only at hx ⊢
      rw [hlive, hl, if_neg (by decide)]
      have hdeleted : t'.deleted = s.freed i :=
        (Prod.mk.inj hx.kept).1.trans (h.events.deleted ho)
      refine ⟨?_, h.ops.owner, h.ops.op_lt, ?_, fun x ↦ ?_⟩
      · refine h.events.act ho rfl le_rfl (fun _ _ ↦ rfl) hdeleted ?_ (fun _ _ ↦ rfl) ?_ ?_
          fun hlone ↦ ?_
        · exact hevent.expired hl hrest hx List.mem_cons_self fun e he op' hop' ↦
            h.settled_iff hop (.inr rfl) (fun hne ↦ he hne.2.symm) hop'
        · exact fun j hj e op' hop' ↦ h.settled_iff hop (.inr rfl) (fun hne ↦ hj hne.1.symm) hop'
        · exact (ite_eq_or_eq ..).symm
        · by_cases hother : s.outstanding i (other d) = []
          · have hidle := hevent.side (other d)
            rw [hother] at hidle
            exact hx.spent hrest hidle
          · have hlone : i ∈ s.lone := by rwa [if_neg hother] at hlone
            rw [(h.events.lone hlone ho).timeout d] at hactive
            cases hactive
      · intro x hx
        rcases List.mem_cons.mp hx with rfl | hx
        · exact h.ops.op_lt hop
        · exact h.ops.settled_lt hx
      · show ((s.calls ++ effects.filterMap IoEffect.call?).map Call.op).count x = _
        rw [List.map_append]
        refine count_settle h.ops.calls (.inl ⟨?_, hopen, rfl⟩) x
        rw [hx.called, h.events.deleted ho, hlive]
        rfl

theorem packet {c : IoContext} {sys : Sys} (h : s.Inv) (hop : op ∈ s.outstanding i d) :
    (s.packet i d op c sys).Inv := by
  obtain ⟨t, ho⟩ := h.events.mem_eq hop
  have hevent := (h.events.event ho).store d c
  have hl := (hevent.side d).eq_singleton hop
  have herase : (s.outstanding i d).erase op = [] := by rw [hl, List.erase_cons_head]
  obtain ⟨hcompleted, hclient⟩ := @tcpProactorCallback_spec (store t d c) sys s.fresh d
    ((hevent.side d).flag_of_mem hop) (hevent.proper d (List.ne_nil_of_mem hop))
  have hdel : (store t d c).deleted = t.deleted := by cases d <;> rfl
  unfold Loop.packet
  rcases hcb : tcpProactorCallback (store t d c) d sys s.fresh with ⟨t', client, effects⟩
  rw [hcb] at hcompleted hclient
  simp only [ho, hcb, herase]
  dsimp only at hcompleted hclient
  have hsettled := ite_eq_or_eq (s.freed i = true) s.settled (op :: s.settled)
  have hdeleted : t'.deleted = s.freed i :=
    ((Prod.mk.inj hcompleted.kept).1.trans hdel).trans (h.events.deleted ho)
  have hself : Function.update s.outstanding i (Function.update (s.outstanding i) d []) i =
      Function.update (s.outstanding i) d [] := Function.update_self ..
  have hacted : Events { s with
      mem := Function.update s.mem i (some t')
      outstanding := Function.update s.outstanding i (Function.update (s.outstanding i) d [])
      nextEvent := s.nextEvent + 1
      nextUserdata := s.nextUserdata + 1
      calls := s.calls ++ effects.filterMap IoEffect.call?
      settled := if s.freed i then s.settled else op :: s.settled } := by
    refine h.events.act ho rfl (Nat.le_succ _) (fun _ _ ↦ rfl) hdeleted ?_
      (fun j hj ↦ Function.update_of_ne hj _ _)
      (fun j hj e op' hop' ↦ h.settled_iff hop hsettled (fun hne ↦ hj hne.1.symm) hop') (.inl rfl)
      fun hlone ↦ ((h.events.lone hlone ho).store d c).completed hcompleted
    show Event t' _ (Function.update s.outstanding i _ i)
    rw [hself]
    exact hevent.completed hop hcompleted fun e he op' hop' ↦
      h.settled_iff hop hsettled (fun hne ↦ he hne.2.symm) hop'
  refine ⟨?_, fun hx hx' ↦ h.ops.owner (mem_of_mem_arrived hx) (mem_of_mem_arrived hx'),
    fun hx ↦ h.ops.op_lt (mem_of_mem_arrived hx), fun {x} hx ↦ ?_, fun x ↦ ?_⟩
  · cases client with
    | none => exact hacted
    | some x =>
      have hlt := h.events.lt ho
      have hnone : Function.update s.mem i (some t') s.nextEvent = none := by
        rw [Function.update_of_ne hlt.ne']
        exact h.events.mem_lt (Nat.le_refl _)
      have hx := hclient x rfl
      exact hacted.create hnone (Nat.lt_succ_self _) (h.events.freed_lt (Nat.le_refl _))
        (fun hl ↦ absurd (h.events.lone_lt hl) (Nat.lt_irrefl _)) hx.deleted
        (.of_fledged hx (hacted.gone hnone))
  · rcases hsettled with heq | heq
    · exact h.ops.settled_lt (heq ▸ hx)
    · rcases List.mem_cons.mp (heq ▸ hx) with rfl | hx
      · exact h.ops.op_lt hop
      · exact h.ops.settled_lt hx
  · show ((s.calls ++ effects.filterMap IoEffect.call?).map Call.op).count x = _
    have hside := hevent.side d
    rw [hl] at hside
    rw [List.map_append]
    exact count_settle h.ops.calls
      (settle_of_completed hside hcompleted (hdel.trans (h.events.deleted ho))) x

theorem processEndgame (h : s.Inv) : s.processEndgame.Inv := by
  have hidle : ∀ {j}, s.idle j = true → ∃ t, s.mem j = some t ∧ t.reading = false ∧
      t.writing = false := by
    intro j hj
    cases ho : s.mem j with
    | none =>
      rw [idle, ho] at hj
      cases hj
    | some t =>
      rw [idle, ho, Option.any_some, Bool.and_eq_true, Bool.not_eq_true', Bool.not_eq_true'] at hj
      exact ⟨t, rfl, hj⟩
  refine ⟨h.events.release (fun j hj e ↦ ?_) (fun _ _ ↦ rfl) fun j hj ↦ ?_, h.ops.owner,
    h.ops.op_lt,
    h.ops.settled_lt, h.ops.calls⟩
  · obtain ⟨t, ho, hreading, hwriting⟩ := hidle hj.2
    cases e with
    | read => exact ((h.events.event ho).side .read).eq_nil hreading
    | write => exact ((h.events.event ho).side .write).eq_nil hwriting
  · obtain ⟨t, ho, -⟩ := hidle hj.2
    exact h.events.lt ho

theorem step {a : Action} (h : s.Inv) (hsober : s.sober a = true) (hreported : s.reported a = true)
    (hstep : s.step a = some s') : s'.Inv := by
  have hlive : ∀ {i t}, s.live i = some t → s.mem i = some t ∧ s.freed i = false := by
    intro i t ht
    obtain ⟨hf, ho⟩ := Option.ite_none_left_eq_some.mp ht
    exact ⟨ho, Bool.eq_false_of_not_eq_true hf⟩
  cases a with
  | new =>
    obtain rfl := Option.some.inj hstep
    exact h.eventNew
  | free i =>
    obtain ⟨t, ht, rfl⟩ := Option.map_eq_some_iff.mp hstep
    exact h.eventFree (hlive ht).1
  | call i c sys =>
    obtain ⟨t, ht, rfl⟩ := Option.map_eq_some_iff.mp hstep
    exact h.call (hlive ht).1 (hlive ht).2 hsober hreported
  | timeoutFires i d =>
    obtain ⟨t, ho, hstep⟩ := Option.bind_eq_some_iff.mp hstep
    obtain ⟨hactive, hs'⟩ := Option.ite_none_right_eq_some.mp hstep
    obtain rfl := Option.some.inj hs'
    exact h.timeoutFires ho hactive
  | packet i d op c sys =>
    obtain ⟨hop, hs'⟩ := Option.ite_none_right_eq_some.mp hstep
    obtain rfl := Option.some.inj hs'
    exact h.packet hop
  | processEndgame =>
    obtain rfl := Option.some.inj hstep
    exact h.processEndgame

end Inv

/-! ## What the client can rely on -/

/-- Operations are accounted for: the callback of an operation is invoked once at most, and once as
soon as its timeout has expired or its packet has arrived on an event that had not been freed; the
memory of an event is there and the flag of a direction is set while a packet is outstanding; and
after a timeout of the only operation, `nanoev_tcp_error` returns the timeout error. -/
structure Accounted (s : Loop) : Prop where
  once : ∀ op, (s.calls.map Call.op).count op ≤ 1
  settled : ∀ op ∈ s.settled, (s.calls.map Call.op).count op = 1
  flag : ∀ i d, ∀ op ∈ s.outstanding i d, ∃ t, s.mem i = some t ∧ t.flag d = true
  timedOut : ∀ i ∈ s.lone, ∀ t, s.mem i = some t → nanoevTcpError t = socketTimeoutError.1

theorem Inv.accounted (h : s.Inv) : s.Accounted where
  once := by
    intro op
    rw [h.ops.calls op]
    split
    · exact Nat.le_refl 1
    · exact Nat.zero_le 1
  settled := by
    intro op hop
    rw [h.ops.calls op, if_pos hop]
  flag := by
    intro i d op hop
    obtain ⟨t, ho⟩ := h.events.mem_eq hop
    exact ⟨t, ho, ((h.events.event ho).side d).flag_of_mem hop⟩
  timedOut := fun i hi t ho ↦ (h.events.lone hi ho).errorCode

/-- **Late packets are harmless** in every run in which a call whose overlapped call was accepted
returns success and the client does not connect or listen on an event in the error state. -/
theorem accounted_of_reported
    (h : Reachable step (fun s a ↦ (s.sober a && s.reported a) = true) init s) : s.Accounted := by
  refine Inv.accounted (h.invariant init_inv fun s a s' hs hok hstep ↦ ?_)
  obtain ⟨hsober, hreported⟩ := Bool.and_eq_true_iff.mp hok
  exact hs.step hsober hreported hstep

/-- An event is connected, a read times out, and its packet arrives late. -/
def lateRead : List Action :=
  [.new, .call 0 (.connect true none true) { Sys.ok 0 with connect := .inProgress },
    .packet 0 .write 0 ⟨0, 0⟩ (.ok 0),
    .call 0 (.read ⟨8, 1⟩ (some ⟨5, 0⟩) true) { Sys.ok 0 with io := .wouldBlock },
    .timeoutFires 0 .read, .packet 0 .read 1 ⟨995, 0⟩ (.ok 0)]

theorem accounted_of_reported_lateRead :
    ∃ s, exec step (fun s a ↦ (s.sober a && s.reported a) = true) init lateRead = some s ∧
      s.calls.map Call.op = [0, 1] ∧ s.settled = [1, 1, 0] ∧ s.lone = [0] ∧ s.Accounted := by
  have hrun : ((exec step (fun s a ↦ (s.sober a && s.reported a) = true) init lateRead).map fun s ↦
      (s.calls.map Call.op, s.settled, s.lone)) = some ([0, 1], [1, 1, 0], [0]) := by
    decide +kernel
  obtain ⟨s, hs, hfields⟩ := Option.map_eq_some_iff.mp hrun
  simp only [Prod.mk.injEq] at hfields
  obtain ⟨hcalls, hsettled, hlone⟩ := hfields
  exact ⟨s, hs, hcalls, hsettled, hlone, accounted_of_reported (Reachable.of_exec hs)⟩

theorem Inv.reported {c : TcpCall} {sys : Sys} (h : s.Inv) (ho : s.mem i = some t)
    (hlive : s.freed i = false) (hsober : s.sober (.call i c sys) = true)
    (hprovided : s.provided (.call i c sys) = true) : s.reported (.call i c sys) = true := by
  have hevent := h.events.event ho
  have hout := @run_outcome t s.nextOp sys s.fresh c
  simp only [Loop.reported, ho]
  rcases hrun : run c t s.nextOp sys s.fresh with ⟨t', effects, ret⟩
  rw [hrun] at hout
  dsimp only at hout ⊢
  have hquiet : (∀ d, .submit d ∉ effects) →
      (decide (ret = .success) || !effects.any fun e ↦ e.submitted?.isSome) = true := by
    intro hnone
    rw [Bool.or_eq_true, Bool.not_eq_true', List.any_eq_false]
    refine .inr fun e he hsome ↦ ?_
    cases e with
    | submit d => exact hnone d he
    | _ => cases hsome
  cases hout with
  | refused => exact hquiet nofun
  | failed _ _ _ _ hsubmit => exact hquiet hsubmit
  | @lost _ _ d hsubmit htimeout hτ hidle =>
    exfalso
    have hnil : s.outstanding i d = [] := by
      rcases hidle with hflag | ⟨hc, hsock⟩
      · exact (hevent.side d).eq_nil hflag
      · rw [sober, ho, hc, Option.any_some, Bool.true_and, Bool.not_eq_true'] at hsober
        exact (hevent.unopened hsock hsober ((h.events.deleted ho).trans hlive)).2.2 d
    have hside := hevent.side d
    rw [hnil] at hside
    cases hside with
    | idle _ _ hoff =>
      rcases hτ with hτ | hτ
      · rw [hoff] at hτ
        cases hτ
      · rw [provided, hτ, Bool.or_false, decide_eq_true_eq] at hprovided
        exact htimeout hprovided
  | _ => rfl

/-- **Outstanding operations are accounted for** in every run in which each call with a timeout
finds memory for the timer heap and the client does not connect or listen on an event in the error
state: the memory that a packet will refer to is there, and its flag is set. -/
theorem outstanding_of_provided
    (h : Reachable step (fun s a ↦ (s.sober a && s.provided a) = true) init s) :
    ∀ i d, ∀ op ∈ s.outstanding i d, ∃ t, s.mem i = some t ∧ t.flag d = true := by
  refine (Inv.accounted (h.invariant init_inv fun s a s' hs hok hstep ↦ ?_)).flag
  obtain ⟨hsober, hprovided⟩ := Bool.and_eq_true_iff.mp hok
  cases a with
  | call i c sys =>
    obtain ⟨t, ht, -⟩ := Option.map_eq_some_iff.mp hstep
    obtain ⟨hf, ho⟩ := Option.ite_none_left_eq_some.mp ht
    have hreported := hs.reported ho (Bool.eq_false_of_not_eq_true hf) hsober hprovided
    exact hs.step hsober hreported hstep
  | _ => exact hs.step hsober rfl hstep

theorem outstanding_of_provided_lateRead :
    ∃ s, exec step (fun s a ↦ (s.sober a && s.provided a) = true) init (lateRead.take 5) = some s ∧
      s.outstanding 0 .read = [1] ∧ ∃ t, s.mem 0 = some t ∧ t.flag .read = true := by
  have hrun : ((exec step (fun s a ↦ (s.sober a && s.provided a) = true) init
      (lateRead.take 5)).map fun s ↦ s.outstanding 0 .read) = some [1] := by decide +kernel
  obtain ⟨s, hs, hout⟩ := Option.map_eq_some_iff.mp hrun
  refine ⟨s, hs, hout, outstanding_of_provided (Reachable.of_exec hs) 0 .read 1 ?_⟩
  rw [hout]
  exact List.mem_singleton_self 1

/-- The calls that lead up to an operation on event 0, and the operation, for which the system takes
over the context while there is no memory for its timeout. -/
def starved : OpKind → List Action
  | .connect =>
    [.new, .call 0 (.connect true (some ⟨5, 0⟩) true)
      { Sys.ok 0 with connect := .inProgress, timerNode := false }]
  | .accept =>
    [.new, .call 0 (.listen true) (.ok 0), .call 0 (.accept (some ⟨5, 0⟩) true false)
      { Sys.ok 0 with accept := .wouldBlock, timerNode := false }]
  | .read =>
    lateRead.take 3 ++ [.call 0 (.read ⟨8, 1⟩ (some ⟨5, 0⟩) true)
      { Sys.ok 0 with io := .wouldBlock, timerNode := false }]
  | .write =>
    lateRead.take 3 ++ [.call 0 (.write ⟨8, 1⟩ (some ⟨5, 0⟩) true)
      { Sys.ok 0 with io := .wouldBlock, timerNode := false }]

/-- The call for an operation of kind `k` fails with its operation outstanding and its flag clear,
and the memory of the event is then released although a packet will refer to it. -/
def Loses (k : OpKind) : Prop :=
  ∃ s s', exec step anyStep init (starved k) = some s ∧ s.outstanding 0 k.dir ≠ [] ∧
    (s.mem 0).map (fun t ↦ t.flag k.dir) = some false ∧ s.step (.free 0) = some s' ∧
    s'.mem 0 = none ∧ s'.outstanding 0 k.dir ≠ []

theorem loses_starved (k : OpKind) : Loses k := by
  have hrun : ((exec step anyStep init (starved k)).bind fun s ↦ (s.step (.free 0)).map fun s' ↦
      (decide (s.outstanding 0 k.dir ≠ []), (s.mem 0).map (fun t ↦ t.flag k.dir),
        decide (s'.mem 0 = none), decide (s'.outstanding 0 k.dir ≠ []))) =
      some (true, some false, true, true) := by
    cases k <;> decide +kernel
  obtain ⟨s, hs, hfields⟩ := Option.bind_eq_some_iff.mp hrun
  obtain ⟨s', hs', hfields⟩ := Option.map_eq_some_iff.mp hfields
  simp only [Prod.mk.injEq, decide_eq_true_eq] at hfields
  obtain ⟨hout, hflag, hmem, hout'⟩ := hfields
  exact ⟨s, s', hs, hout, hflag, hs', hmem, hout'⟩

/-- Each of the four calls can lose its operation. -/
theorem exists_unaccounted :
    Loses .connect ∧ Loses .accept ∧ Loses .read ∧ Loses .write :=
  ⟨loses_starved _, loses_starved _, loses_starved _, loses_starved _⟩

end Loop

end Nanoev.Iocp
