import Nanoev.EventLoop.Basic

/-!
# The nodes in the heap and their owners

Every node in the heap of a loop belongs to an event that the client has not freed. For a timer
event this is part of the invariant of the timers; for a TCP event it follows from two facts, that
the heap and the `active` fields agree (`Inv.nodes`) and that these fields are off in a freed event
(`IoLoop.Timed`).

`Ledger` keeps the books on the memory of the timer events. A timer is freed at once, except by its
own callback: then it is only marked, and released when the callback returns. In between it is out
of the heap, and the mark keeps it out.
-/

namespace Nanoev

open Transition

/-! ## The timers -/

namespace TimerLoop

open TimerMinHeap

variable {s s' : TimerLoop} {a : Action} {n : NodeRef} {alloc : Bool}

/-- The step keeps the memory of the timer events, their marks, and the running callback. -/
structure Calm (s s' : TimerLoop) : Prop where
  deleted : ∀ t, (s'.timer t).map Timer.deleted = (s.timer t).map Timer.deleted
  control : ∀ t, s.control = .timerCallback t → s'.control = .timerCallback t

theorem Calm.of_eq (htimer : s'.timer = s.timer) (hcontrol : s'.control = s.control) :
    s.Calm s' := by
  refine ⟨fun t ↦ ?_, fun t h ↦ ?_⟩
  · rw [htimer]
  · rw [hcontrol, h]

theorem Calm.trans {s₁ : TimerLoop} (h : s.Calm s₁) (h' : s₁.Calm s') : s.Calm s' :=
  ⟨fun t ↦ (h'.deleted t).trans (h.deleted t), fun t ht ↦ h'.control t (h.control t ht)⟩

theorem Calm.setTimer {t : ℕ} {τ τ' : Timer} (hτ : s.timer t = some τ)
    (htimer : s'.timer = Function.update s.timer t (some τ')) (hdel : τ'.deleted = τ.deleted)
    (hcontrol : ∀ u, s.control = .timerCallback u → s'.control = .timerCallback u) :
    s.Calm s' := by
  refine ⟨fun u ↦ ?_, hcontrol⟩
  rw [htimer, Function.update_apply]
  split_ifs with hu
  · rw [hu, hτ, Option.map_some, Option.map_some, hdel]
  · rfl

/-- The actions that keep the memory of the timer events: all but creating and freeing one, and the
return of its callback. -/
def calm (s : TimerLoop) : Action → Bool
  | .timerNew _ | .timerFree _ => false
  | .callbackReturn _ => decide (s.control = .tcpCallback)
  | _ => true

theorem Effect.calm (h : Effect s a s') (ha : s.calm a = true) : s.Calm s' := by
  have hno : ∀ {c : Control}, s.control = c → (∀ t, c ≠ .timerCallback t) →
      ∀ t, s.control = .timerCallback t → s'.control = .timerCallback t :=
    fun hc hne t ht ↦ absurd (hc.symm.trans ht) (hne t)
  cases h with
  | timerNew | freeInvoking | freed => cases ha
  | addRefused | delRefused | deleted | tcpAddRefused | tcpAddFailed | tcpAdded | tcpDel =>
    exact .of_eq rfl rfl
  | addFailed hτ hdel | added hτ hdel | delInvoking hτ hdel =>
    exact .setTimer hτ rfl rfl fun _ h ↦ h
  | runEnter hc | processed hc | firedTcp hc | tcpReturn hc | poll hc | nextIteration hc
  | runExit hc => exact ⟨fun _ ↦ rfl, hno hc nofun⟩
  | @updateTime clock hc =>
    obtain ⟨-, htimer, -⟩ := updateTime_frame s clock
    exact ⟨fun t ↦ congrArg (fun f ↦ (f t).map Timer.deleted) htimer, hno hc nofun⟩
  | firedTimer hc _ _ _ hτ => exact .setTimer hτ rfl rfl (hno hc nofun)
  | returnDeleted hc | returned hc | reinserted hc =>
    rw [TimerLoop.calm, hc] at ha
    cases ha

/-- The actions that may put the node of a TCP event into the heap or take it out. -/
def Action.movesTcp : Action → Bool
  | .tcpTimeoutAdd .. | .tcpTimeoutDel .. | .processTurn => true
  | _ => false

theorem Effect.armed_tcp (hs : s.Inv) (h : Effect s a s') (ha : a.movesTcp = false) (e : ℕ)
    (w : Bool) :
    (s'.timers.armed (.tcp e w)).isSome = (s.timers.armed (.tcp e w)).isSome := by
  have herase : ∀ t, (s.erase (.timer t)).timers.armed (.tcp e w) = s.timers.armed (.tcp e w) := by
    intro t
    rw [armed_erase hs, Function.update_of_ne (by simp)]
  have hpush : ∀ {t} (tv : Timeval) (capacity : ℕ), .timer t ∉ s.timers.activeNodes →
      (pushLast { s.timers.setTimeout (.timer t) tv with capacity := capacity }
        (.timer t)).armed (.tcp e w) = s.timers.armed (.tcp e w) := by
    intro t tv capacity hn
    rw [armed_pushLast hs.heap hn, Function.update_of_ne (by simp)]
  cases h with
  | timerNew hnone =>
    exact congrArg _ (congrFun (armed_timerNodeInit hs.heap (hs.not_mem_of_none hnone)) _)
  | addFailed hτ hdel hn => exact congrArg _ (congrFun (armed_setTimeout hn _) _)
  | added hτ hdel hn | reinserted hc hτ hdel hrep hn => exact congrArg _ (hpush _ _ hn)
  | deleted | freeInvoking | freed => exact congrArg _ (herase _)
  | tcpAddRefused | tcpAddFailed | tcpAdded | tcpDel | processed | firedTimer | firedTcp => cases ha
  | updateTime hc =>
    refine (congrArg _ (armed_updateTime hs _ _)).trans ?_
    rw [Option.isSome_map]
  | _ => rfl

/-! ### The node that is due -/

theorem processTurn_of_due_timer {t : ℕ} (h : s.due = some (.timer t)) :
    s.processTurn = (s.fire (.timer t)).invokeTimer t := by
  unfold due at h
  split_ifs at h with hsize htime
  have heq := Option.some.inj h
  rw [heq] at htime
  simp only [processTurn, if_neg hsize, heq, if_neg htime]

theorem processTurn_of_due_tcp {e : ℕ} {w : Bool} (h : s.due = some (.tcp e w)) :
    s.processTurn = { s.fire (.tcp e w) with control := .tcpCallback } := by
  unfold due at h
  split_ifs at h with hsize htime
  have heq := Option.some.inj h
  rw [heq] at htime
  simp only [processTurn, if_neg hsize, heq, if_neg htime]

theorem processTurn_of_due_none (h : s.due = none) :
    s.processTurn = { s with control := .waiting } := by
  unfold due at h
  unfold processTurn
  split_ifs at h with hsize htime
  · exact if_pos hsize
  · rw [if_neg hsize]
    exact if_pos htime

theorem armed_of_processTurn (hs : s.Inv) (h : s.due = some n) (m : NodeRef) :
    (s.processTurn.timers.armed m).isSome = if m = n then false else (s.timers.armed m).isSome := by
  have htimers : s.processTurn.timers = (s.erase n).timers := by
    cases n with
    | timer t =>
      rw [processTurn_of_due_timer h, invokeTimer]
      split <;> rfl
    | tcp e w => rw [processTurn_of_due_tcp h, ← fire_timers]
  rw [htimers, armed_erase hs, Function.update_apply]
  split_ifs <;> rfl

/-! ### One node -/

/-- The node `n` is put where `b` says, and no other is touched. -/
structure NodeSet (s : TimerLoop) (n : NodeRef) (b : Bool) (s' : TimerLoop) : Prop where
  inv : s'.Inv
  armed : ∀ m, (s'.timers.armed m).isSome = if m = n then b else (s.timers.armed m).isSome
  timer : s'.timer = s.timer
  control : s'.control = s.control

theorem NodeSet.refl (hs : s.Inv) (n : NodeRef) : s.NodeSet n (s.timers.armed n).isSome s where
  inv := hs
  armed m := by
    split_ifs with hm
    · rw [hm]
    · rfl
  timer := rfl
  control := rfl

theorem erase_nodeSet (hs : s.Inv) (n : NodeRef) : s.NodeSet n false (s.erase n) where
  inv := hs.erase n
  armed m := by
    rw [armed_erase hs, Function.update_apply]
    split_ifs <;> rfl
  timer := rfl
  control := rfl

theorem room_erase (hs : s.Inv) (n : NodeRef) (h : s.room alloc = true) :
    (s.erase n).room alloc = true := by
  by_cases hn : n ∈ s.timers.activeNodes
  · have he := minHeapErase_erased hs.heap hn
    have hsize : (s.erase n).timers.size = s.timers.size - 1 := he.size
    have hcap : (s.erase n).timers.capacity = s.timers.capacity := he.capacity
    rw [room, Bool.or_eq_true, decide_eq_true_eq] at h ⊢
    rcases h with h | h
    · exact .inl h
    · exact .inr (by omega)
  · have heq : (s.erase n).timers = s.timers := minHeapErase_of_inactive hn
    rw [room, heq]
    exact h

theorem nodeAdd_nodeSet {after : Timeval} {clock : Timeval.Reading} {e : ℕ} {w : Bool} (hs : s.Inv)
    (hn : (s.timers.armed (.tcp e w)).isSome = false) (hroom : s.room alloc = true)
    (h : s.step (.tcpTimeoutAdd e w after clock alloc) = some s') :
    s.NodeSet (.tcp e w) true s' := by
  have hinv : s'.Inv := (step_effect hs h).inv hs
  have hnot : .tcp e w ∉ s.timers.activeNodes := by
    rw [← armed_eq_none_iff]
    exact Option.not_isSome_iff_eq_none.mp (Bool.eq_false_iff.mp hn)
  obtain ⟨-, rfl⟩ := of_guard h
  rcases nodeAddBy_cases timeAdd s (.tcp e w) after clock alloc with
    ⟨hmem, -⟩ | ⟨-, hcap, halloc, -⟩ | ⟨-, capacity, -, heq⟩
  · exact absurd hmem hnot
  · rw [room, halloc, Bool.false_or, decide_eq_true_eq] at hroom
    omega
  · rw [heq] at hinv ⊢
    refine ⟨hinv, fun m ↦ ?_, rfl, rfl⟩
    refine (congrArg Option.isSome (congrFun (armed_pushLast hs.heap hnot _ _) m)).trans ?_
    rw [Function.update_apply]
    split_ifs <;> rfl

end TimerLoop

namespace EventLoop

open TimerLoop (Calm NodeSet)

variable {s s' : EventLoop} {timers timers' : TimerLoop}

/-! ## The script of a function

A function on a TCP event may delete, arm and delete timeouts on its way. Its script is the list of
actions of the timer loop that has the same effect on the heap. -/

theorem exec_single {b : TimerLoop.Action}
    (h : exec TimerLoop.step anyStep timers [b] = some timers') :
    timers.step b = some timers' := by
  cases Run.of_exec h with
  | cons _ hstep rest =>
    cases rest with
    | nil => exact hstep

theorem ofDir_inj {e f : ℕ} {c d : Dir} :
    NodeRef.ofDir e c = NodeRef.ofDir f d ↔ e = f ∧ c = d := by
  unfold NodeRef.ofDir
  cases c <;> cases d <;> simp [Dir.isWrite]

/-- The script of one node puts it where it belongs, and does not use up the room unless it arms
the node. -/
theorem nodeSet_of_exec {e : ℕ} {d : Dir} {after : Bool} {delay : Timeval} {clock : Timeval.Reading}
    {alloc : Bool} (hs : timers.Inv)
    (hroom : (timers.timers.armed (.ofDir e d)).isSome = false → after = true →
      timers.room alloc = true)
    (h : exec TimerLoop.step anyStep timers
      (nodeActions e d (timers.timers.armed (.ofDir e d)).isSome after delay clock alloc) =
        some timers') :
    timers.NodeSet (.ofDir e d) after timers' ∧
      (¬((timers.timers.armed (.ofDir e d)).isSome = false ∧ after = true) →
        timers.room alloc = true → timers'.room alloc = true) := by
  have hrefl := NodeSet.refl hs (.ofDir e d)
  cases hb : (timers.timers.armed (.ofDir e d)).isSome <;> rw [hb] at h hroom hrefl <;>
    cases after
  · cases h
    exact ⟨hrefl, fun _ hr ↦ hr⟩
  · exact ⟨TimerLoop.nodeAdd_nodeSet hs hb (hroom rfl rfl) (exec_single h),
      fun hnot ↦ absurd ⟨rfl, rfl⟩ hnot⟩
  · obtain ⟨-, rfl⟩ := of_guard (exec_single h)
    exact ⟨TimerLoop.erase_nodeSet hs _, fun _ ↦ TimerLoop.room_erase hs _⟩
  · cases h
    exact ⟨hrefl, fun _ hr ↦ hr⟩

/-! ## The books

A timer is released when `timer_free` finds it idle, or when its callback returns and finds the
mark. In both cases it leaves the memory, so it is released once; a timer that has been freed and is
not released yet is the one whose callback is running. -/

/-- The memory of the timer events: an event that is not freed has its memory, a freed one has been
released once, except while its own callback is running. -/
structure Ledger (s : EventLoop) : Prop where
  fresh : ∀ t, s.nextTimer ≤ t →
    s.timers.timer t = none ∧ s.timerFreed t = false ∧ s.timersReleased.count t = 0
  held : ∀ t τ, s.timers.timer t = some τ → τ.deleted = s.timerFreed t ∧
    s.timersReleased.count t = 0 ∧ (τ.deleted = true → s.timers.control = .timerCallback t)
  gone : ∀ t, t < s.nextTimer → s.timers.timer t = none →
    s.timerFreed t = true ∧ s.timersReleased.count t = 1

theorem init_ledger : init.Ledger where
  fresh _ _ := ⟨rfl, rfl, rfl⟩
  held _ _ h := by cases h
  gone t h := absurd h (Nat.not_lt_zero t)

theorem released_eq_nil {t : ℕ}
    (h : (timers'.timer t).map Timer.deleted = (timers.timer t).map Timer.deleted) :
    released timers timers' t = [] := by
  have hsome : (timers'.timer t).isSome = (timers.timer t).isSome := by
    rw [← Option.isSome_map, h, Option.isSome_map]
  rw [released, ← Option.not_isSome, hsome, Bool.and_not_self]
  rfl

theorem releasedAtReturn_of_calm (h : timers.Calm timers') :
    releasedAtReturn timers timers' = [] := by
  unfold releasedAtReturn
  split
  · exact released_eq_nil (h.deleted _)
  · rfl

/-- A step that keeps the memory of the timer events and their marks, and does not leave the
callback of a marked one. -/
theorem Ledger.keep (hs : s.Ledger)
    (hdeleted : ∀ t, (s'.timers.timer t).map Timer.deleted = (s.timers.timer t).map Timer.deleted)
    (hcontrol : ∀ t τ, s.timers.timer t = some τ → τ.deleted = true →
      s.timers.control = .timerCallback t → s'.timers.control = .timerCallback t)
    (hnext : s'.nextTimer = s.nextTimer) (hfreed : s'.timerFreed = s.timerFreed)
    (hreleased : s'.timersReleased = s.timersReleased) : s'.Ledger := by
  have hnone : ∀ t, s'.timers.timer t = none ↔ s.timers.timer t = none := by
    intro t
    rw [← Option.map_eq_none_iff (f := Timer.deleted), hdeleted t, Option.map_eq_none_iff]
  refine ⟨fun t ht ↦ ?_, fun t τ' hτ' ↦ ?_, fun t ht hτ ↦ ?_⟩
  · rw [hnone, hfreed, hreleased]
    exact hs.fresh t (hnext ▸ ht)
  · have hdel := hdeleted t
    rw [hτ', Option.map_some] at hdel
    obtain ⟨τ, hτ, heq⟩ := Option.map_eq_some_iff.mp hdel.symm
    rw [hfreed, hreleased, ← heq]
    obtain ⟨hmark, hcount, hrunning⟩ := hs.held t τ hτ
    exact ⟨hmark, hcount, fun h ↦ hcontrol t τ hτ h (hrunning h)⟩
  · rw [hfreed, hreleased]
    exact hs.gone t (hnext ▸ ht) ((hnone t).mp hτ)

theorem Ledger.calm (hs : s.Ledger) (hcalm : s.timers.Calm s'.timers)
    (hnext : s'.nextTimer = s.nextTimer) (hfreed : s'.timerFreed = s.timerFreed)
    (hreleased : s'.timersReleased = s.timersReleased) : s'.Ledger :=
  hs.keep hcalm.deleted (fun t _ _ _ h ↦ hcalm.control t h) hnext hfreed hreleased

theorem Ledger.timerNew (hs : s.Ledger) :
    Ledger { s with timers := s.timers.timerNew s.nextTimer, nextTimer := s.nextTimer + 1 } := by
  have htimer : (s.timers.timerNew s.nextTimer).timer =
      Function.update s.timers.timer s.nextTimer (some ⟨false, false, ⟨0, 0⟩, false, 0⟩) := rfl
  obtain ⟨-, hmark, hcount⟩ := hs.fresh s.nextTimer le_rfl
  refine ⟨fun t ht ↦ ?_, fun t τ hτ ↦ ?_, fun t ht hτ ↦ ?_⟩
  · rw [htimer, Function.update_of_ne (Nat.ne_of_gt ht)]
    exact hs.fresh t (Nat.le_of_succ_le ht)
  · rw [htimer, Function.update_apply] at hτ
    split_ifs at hτ with heq
    · subst heq
      obtain rfl := Option.some.inj hτ
      exact ⟨hmark.symm, hcount, nofun⟩
    · exact hs.held t τ hτ
  · rw [htimer, Function.update_apply] at hτ
    split_ifs at hτ with heq
    exact hs.gone t (Nat.lt_of_le_of_ne (Nat.le_of_lt_succ ht) heq) hτ

theorem Ledger.release {t : ℕ} {τ : Timer} (hs : s.Ledger) (hτ : s.timers.timer t = some τ)
    (htimer : s'.timers.timer = Function.update s.timers.timer t none)
    (hcontrol : ∀ u, u ≠ t → s.timers.control = .timerCallback u →
      s'.timers.control = .timerCallback u)
    (hnext : s'.nextTimer = s.nextTimer) (hself : s'.timerFreed t = true)
    (hother : ∀ u, u ≠ t → s'.timerFreed u = s.timerFreed u)
    (hreleased : s'.timersReleased = s.timersReleased ++ [t]) : s'.Ledger := by
  have hne : ∀ u, s.nextTimer ≤ u → u ≠ t := by
    rintro u hu rfl
    rw [(hs.fresh u hu).1] at hτ
    cases hτ
  have hcount : ∀ u, u ≠ t → s'.timersReleased.count u = s.timersReleased.count u := by
    intro u hu
    rw [hreleased, List.count_append, List.count_singleton, if_neg (by simpa using hu.symm),
      Nat.add_zero]
  refine ⟨fun u hu ↦ ?_, fun u σ hσ ↦ ?_, fun u hu hσ ↦ ?_⟩
  · have hut := hne u (hnext ▸ hu)
    rw [htimer, Function.update_of_ne hut, hother u hut, hcount u hut]
    exact hs.fresh u (hnext ▸ hu)
  · rw [htimer, Function.update_apply] at hσ
    split_ifs at hσ with hut
    rw [hother u hut, hcount u hut]
    obtain ⟨hmark, hzero, hrunning⟩ := hs.held u σ hσ
    exact ⟨hmark, hzero, fun h ↦ hcontrol u hut (hrunning h)⟩
  · by_cases hut : u = t
    · subst hut
      refine ⟨hself, ?_⟩
      rw [hreleased, List.count_append, (hs.held u τ hτ).2.1, List.count_singleton_self]
    · rw [hother u hut, hcount u hut]
      rw [htimer, Function.update_of_ne hut] at hσ
      exact hs.gone u (hnext ▸ hu) hσ

theorem Ledger.mark {t : ℕ} {τ τ' : Timer} (hs : s.Ledger) (hτ : s.timers.timer t = some τ)
    (hc : s.timers.control = .timerCallback t) (hτ' : τ'.deleted = true)
    (htimer : s'.timers.timer = Function.update s.timers.timer t (some τ'))
    (hcontrol : s'.timers.control = s.timers.control) (hnext : s'.nextTimer = s.nextTimer)
    (hfreed : s'.timerFreed = Function.update s.timerFreed t true)
    (hreleased : s'.timersReleased = s.timersReleased) : s'.Ledger := by
  refine ⟨fun u hu ↦ ?_, fun u σ hσ ↦ ?_, fun u hu hσ ↦ ?_⟩
  · have hut : u ≠ t := by
      rintro rfl
      rw [(hs.fresh u (hnext ▸ hu)).1] at hτ
      cases hτ
    rw [htimer, hfreed, hreleased, Function.update_of_ne hut, Function.update_of_ne hut]
    exact hs.fresh u (hnext ▸ hu)
  · rw [hfreed, hreleased, hcontrol]
    rw [htimer, Function.update_apply] at hσ
    split_ifs at hσ with hut
    · subst hut
      obtain rfl := Option.some.inj hσ
      rw [Function.update_self]
      exact ⟨hτ', (hs.held u τ hτ).2.1, fun _ ↦ hc⟩
    · rw [Function.update_of_ne hut]
      exact hs.held u σ hσ
  · rw [htimer, Function.update_apply] at hσ
    split_ifs at hσ with hut
    rw [hfreed, hreleased, Function.update_of_ne hut]
    exact hs.gone u (hnext ▸ hu) hσ

/-! ## The invariant -/

/-- The invariant of the loop: those of its parts, and that they agree on the nodes in the heap. -/
structure Inv (s : EventLoop) : Prop where
  timers : s.timers.Inv
  wf : s.io.Wf
  timed : s.io.Timed
  nodes : ∀ e d, (s.timers.timers.armed (.ofDir e d)).isSome = s.io.armedAt e d
  ledger : s.Ledger

theorem init_inv : init.Inv where
  timers := TimerLoop.init_inv
  wf := IoLoop.init_wf
  timed := nofun
  nodes _ _ := rfl
  ledger := init_ledger

theorem released_of_none {t : ℕ} {τ : Timer} (hτ : timers.timer t = some τ)
    (hnone : timers'.timer t = none) : released timers timers' t = [t] := by
  rw [released, hτ, hnone]
  rfl

theorem released_of_some {t : ℕ} {τ : Timer} (hτ : timers'.timer t = some τ) :
    released timers timers' t = [] := by
  rw [released, hτ, Option.isNone_some, Bool.and_false]
  rfl

theorem Inv.ledger_timer {a : TimerLoop.Action} (hs : s.Inv) (ha : s.timerAlone a = true)
    (h : s.timers.step a = some timers') : (s.afterTimer timers' a).Ledger := by
  have hE := TimerLoop.step_effect hs.timers h
  cases a with
  | timerNew t =>
    rw [timerAlone, Bool.and_eq_true, decide_eq_true_eq] at ha
    obtain ⟨-, rfl⟩ := ha
    obtain ⟨-, rfl⟩ := of_guard h
    exact hs.ledger.timerNew
  | timerFree t =>
    cases hE with
    | @freeInvoking _ τ hτ hdel hinvoking =>
      have hc : s.timers.control = .timerCallback t := (hs.timers.invoking t).mpr ⟨τ, hτ, hinvoking⟩
      refine hs.ledger.mark hτ hc rfl rfl rfl rfl rfl ?_
      show s.timersReleased ++ released _ _ t = s.timersReleased
      rw [released_of_some (Function.update_self ..), List.append_nil]
    | freed hτ hinvoking =>
      have hnone : ((s.timers.erase (.timer t)).setTimer t none).timer t = none :=
        Function.update_self ..
      refine hs.ledger.release hτ rfl (fun _ _ hu ↦ hu) rfl (Function.update_self ..)
        (fun u hu ↦ Function.update_of_ne hu _ _) ?_
      exact congrArg _ (released_of_none hτ hnone)
  | timerAdd | timerDel | updateTime | processTurn =>
    exact hs.ledger.calm (hE.calm rfl) rfl rfl rfl
  | _ => cases ha

theorem Inv.timer {a : TimerLoop.Action} (hs : s.Inv) (ha : s.timerAlone a = true)
    (h : s.timers.step a = some timers') : (s.afterTimer timers' a).Inv := by
  have hE := TimerLoop.step_effect hs.timers h
  have htimers : (s.afterTimer timers' a).timers = timers' := by cases a <;> rfl
  have hio : (s.afterTimer timers' a).io = s.io := by cases a <;> rfl
  refine ⟨?_, ?_, ?_, fun e d ↦ ?_, hs.ledger_timer ha h⟩
  · rw [htimers]
    exact hE.inv hs.timers
  · rw [hio]
    exact hs.wf
  · rw [hio]
    exact hs.timed
  · rw [htimers, hio, ← hs.nodes e d]
    cases a with
    | processTurn =>
      obtain ⟨-, rfl⟩ := of_guard h
      rw [TimerLoop.processTurn_of_due_none (of_decide_eq_true ha)]
    | timerNew | timerAdd | timerDel | timerFree | updateTime =>
      exact hE.armed_tcp hs.timers rfl e _
    | _ => cases ha

/-! ### An action of the I/O events -/

theorem subject_withRoom (io : IoLoop) (room : Bool) (a : IoLoop.Action) :
    io.subject (withRoom room a) = io.subject a := by
  cases a <;> rfl

/-- The answer of the heap decides whether a call can arm a node. -/
theorem room_of_arms {room : Bool} {a : IoLoop.Action} {e : ℕ} {c : TcpCall} {sys : Sys} {d : Dir}
    (ha : withRoom room a = .tcp e c sys) (harms : c.Arms d sys) : room = true := by
  cases a with
  | tcp i c' sys' =>
    obtain ⟨-, -, rfl⟩ := IoLoop.Action.tcp.inj ha
    exact harms.2.2
  | _ => cases ha

/-- The script of a function on a TCP event makes the heap agree with the event. -/
theorem Inv.heapActions {io' : IoLoop} {a : IoLoop.Action} {clock : Timeval.Reading} {alloc : Bool}
    (hs : s.Inv) (hio : s.io.step (withRoom (s.timers.room alloc) a) = some io')
    (h : exec TimerLoop.step anyStep s.timers (heapActions s.io io' a clock alloc) = some timers') :
    timers'.Inv ∧ timers'.timer = s.timers.timer ∧ timers'.control = s.timers.control ∧
      ∀ e d, (timers'.timers.armed (.ofDir e d)).isSome = io'.armedAt e d := by
  have hturn := (IoLoop.step_eq_some hio).turn hs.wf hs.timed
  have hother : ∀ e, s.io.subject a ≠ some e → ∀ d, io'.armedAt e d = s.io.armedAt e d := by
    intro e he
    refine (hturn e).armedAt_eq hs.timed ?_
    rw [subject_withRoom]
    exact he
  unfold EventLoop.heapActions at h
  split at h
  · next e he =>
    rw [exec_append] at h
    obtain ⟨timers₁, h₁, h₂⟩ := Option.bind_eq_some_iff.mp h
    have harms : ∀ d, s.io.armedAt e d = false → io'.armedAt e d = true →
        ∃ c sys, withRoom (s.timers.room alloc) a = .tcp e c sys ∧ c.Arms d sys :=
      fun d ↦ (hturn e).arms
    have hroom : ∀ d, s.io.armedAt e d = false → io'.armedAt e d = true →
        s.timers.room alloc = true := by
      intro d hoff hon
      obtain ⟨c, sys, ha, hc⟩ := harms d hoff hon
      exact room_of_arms ha hc
    rw [← hs.nodes e .read] at h₁
    obtain ⟨hset₁, hkeep⟩ :=
      nodeSet_of_exec hs.timers (fun hoff ↦ hroom .read (hs.nodes e .read ▸ hoff)) h₁
    have hwrite : (timers₁.timers.armed (.ofDir e .write)).isSome = s.io.armedAt e .write := by
      rw [hset₁.armed, if_neg (by simp [ofDir_inj]), hs.nodes]
    rw [← hwrite] at h₂
    have hroom₁ : (timers₁.timers.armed (.ofDir e .write)).isSome = false →
        io'.armedAt e .write = true → timers₁.room alloc = true := by
      intro hoff hon
      rw [hwrite] at hoff
      refine hkeep ?_ (hroom .write hoff hon)
      -- a call does not arm both nodes
      rintro ⟨hoff', hon'⟩
      rw [hs.nodes] at hoff'
      obtain ⟨c, sys, ha, hc⟩ := harms .write hoff hon
      obtain ⟨c', sys', ha', hc'⟩ := harms .read hoff' hon'
      obtain ⟨-, rfl, rfl⟩ := IoLoop.Action.tcp.inj (ha.symm.trans ha')
      cases hc.dir_unique hc'
    obtain ⟨hset₂, -⟩ := nodeSet_of_exec hset₁.inv hroom₁ h₂
    refine ⟨hset₂.inv, hset₂.timer.trans hset₁.timer, hset₂.control.trans hset₁.control,
      fun f d ↦ ?_⟩
    rw [hset₂.armed, hset₁.armed]
    simp only [ofDir_inj]
    by_cases hf : f = e
    · subst hf
      cases d <;> simp
    · simp only [hf, false_and, if_false]
      rw [hs.nodes, hother f]
      rw [he]
      exact fun h ↦ hf (Option.some.inj h).symm
  · next he =>
    cases h
    refine ⟨hs.timers, rfl, rfl, fun e d ↦ ?_⟩
    rw [hother e (by rw [he]; exact (Option.some_ne_none e).symm), hs.nodes]

theorem Inv.of_calm {io' : IoLoop} {a : IoLoop.Action} (hs : s.Inv) (hio : s.io.step a = some io')
    (htimers : timers'.Inv) (hcalm : s.timers.Calm timers')
    (hnodes : ∀ e d, (timers'.timers.armed (.ofDir e d)).isSome = io'.armedAt e d) :
    (s.afterIo timers' io').Inv where
  timers := htimers
  wf := (IoLoop.step_eq_some hio).wf hs.wf
  timed := hs.timed.step hs.wf hio
  nodes := hnodes
  ledger := by
    refine hs.ledger.calm hcalm rfl rfl ?_
    rw [afterIo, releasedAtReturn_of_calm hcalm, List.append_nil]

/-- The nodes of the TCP events, in a step that touches none of them on either side. -/
theorem Inv.nodes_of_plain {io' : IoLoop} {a : IoLoop.Action} {b : TimerLoop.Action} (hs : s.Inv)
    (hio : s.io.step a = some io') (ha : s.io.subject a = none)
    (hstep : s.timers.step b = some timers')
    (hb : b.movesTcp = false) (e : ℕ) (d : Dir) :
    (timers'.timers.armed (.ofDir e d)).isSome = io'.armedAt e d := by
  have hturn := (IoLoop.step_eq_some hio).turn hs.wf hs.timed e
  rw [hturn.armedAt_eq hs.timed (by rw [ha]; nofun), ← hs.nodes]
  exact (TimerLoop.step_effect hs.timers hstep).armed_tcp hs.timers hb e _

theorem Inv.plain {io' : IoLoop} {a : IoLoop.Action} {b : TimerLoop.Action} (hs : s.Inv)
    (hio : s.io.step a = some io') (ha : s.io.subject a = none)
    (h : exec TimerLoop.step anyStep s.timers [b] = some timers') (hb : b.movesTcp = false)
    (hcalm : s.timers.calm b = true) : (s.afterIo timers' io').Inv := by
  have hstep := exec_single h
  have hE := TimerLoop.step_effect hs.timers hstep
  exact hs.of_calm hio (hE.inv hs.timers) (hE.calm hcalm) (hs.nodes_of_plain hio ha hstep hb)

theorem Inv.timerFires {io' : IoLoop} {t : ℕ} (hs : s.Inv) (hio : s.io.step .timerFires = some io')
    (hdue : s.timers.due = some (.timer t))
    (h : exec TimerLoop.step anyStep s.timers [.processTurn] = some timers') :
    (s.afterIo timers' io').Inv := by
  have hstep := exec_single h
  have hE := TimerLoop.step_effect hs.timers hstep
  refine hs.of_calm hio (hE.inv hs.timers) (hE.calm rfl) fun e d ↦ ?_
  have hturn := (IoLoop.step_eq_some hio).turn hs.wf hs.timed e
  obtain ⟨-, rfl⟩ := of_guard hstep
  rw [hturn.armedAt_eq hs.timed nofun, TimerLoop.armed_of_processTurn hs.timers hdue, if_neg nofun,
    hs.nodes]

/-- The timers after the expiry of a node of a TCP event, whether the client is called or not. -/
theorem expired_of_exec {i : ℕ} {d : Dir} {p : Prop} [Decidable p] {clock : Timeval.Reading}
    (hs : timers.Inv) (hdue : timers.due = some (.ofDir i d))
    (h : exec TimerLoop.step anyStep timers
      (.processTurn :: if p then [.callbackReturn clock] else []) = some timers') :
    timers'.Inv ∧ timers.Calm timers' ∧ timers'.timers = timers.processTurn.timers ∧
      timers'.control = if p then .processing else .tcpCallback := by
  rw [← List.singleton_append, exec_append] at h
  obtain ⟨timers₁, h₁, h₂⟩ := Option.bind_eq_some_iff.mp h
  have hstep₁ := exec_single h₁
  have hE₁ := TimerLoop.step_effect hs hstep₁
  have hinv₁ := hE₁.inv hs
  obtain ⟨-, rfl⟩ := of_guard hstep₁
  have hc : timers.processTurn.control = .tcpCallback := by
    rw [TimerLoop.processTurn_of_due_tcp hdue]
  split_ifs at h₂ ⊢
  · have hstep₂ := exec_single h₂
    have hE₂ := TimerLoop.step_effect hinv₁ hstep₂
    refine ⟨hE₂.inv hinv₁, (hE₁.calm rfl).trans (hE₂.calm (decide_eq_true hc)), ?_⟩
    rw [TimerLoop.step, TimerLoop.stepBy, hc] at hstep₂
    rw [← Option.some.inj hstep₂]
    exact ⟨rfl, rfl⟩
  · cases h₂
    exact ⟨hinv₁, hE₁.calm rfl, rfl, hc⟩

theorem Inv.timeoutFires {io' : IoLoop} {i : ℕ} {d : Dir} {sys : Sys} {clock : Timeval.Reading}
    (hs : s.Inv) (hio : s.io.step (.timeoutFires i d sys) = some io')
    (hdue : s.timers.due = some (.ofDir i d))
    (h : exec TimerLoop.step anyStep s.timers
      (.processTurn :: if io'.phase = .timers then [.callbackReturn clock] else []) =
        some timers') :
    (s.afterIo timers' io').Inv := by
  obtain ⟨hinv, hcalm, htimers, -⟩ := expired_of_exec hs.timers hdue h
  obtain ⟨hoff, hother⟩ := IoLoop.armedAt_timeoutFires hs.timed hio
  refine hs.of_calm hio hinv hcalm fun e c ↦ ?_
  rw [htimers, TimerLoop.armed_of_processTurn hs.timers hdue, hs.nodes]
  by_cases he : e = i
  · subst he
    by_cases hc : c = d
    · subst hc
      rw [if_pos rfl, hoff]
    · rw [if_neg fun h ↦ hc (ofDir_inj.mp h).2, hother c hc]
  · have hturn := (IoLoop.step_eq_some hio).turn hs.wf hs.timed e
    rw [if_neg fun h ↦ he (ofDir_inj.mp h).1,
      hturn.armedAt_eq hs.timed fun h ↦ he (Option.some.inj h).symm]

theorem releasedAtReturn_eq {t : ℕ} (hc : timers.control = .timerCallback t) :
    releasedAtReturn timers timers' = released timers timers' t := by
  rw [releasedAtReturn, hc]

/-- A callback returns: a marked timer is released, any other is kept. -/
theorem Inv.ledger_return {io' : IoLoop} {clock : Timeval.Reading} (hs : s.Inv)
    (h : s.timers.step (.callbackReturn clock) = some timers') :
    (s.afterIo timers' io').Ledger := by
  have hE := TimerLoop.step_effect hs.timers h
  have hcalm : s.timers.calm (.callbackReturn clock) = true → s.timers.Calm timers' := hE.calm
  have hkeep : ∀ {t τ}, s.timers.control = .timerCallback t → s.timers.timer t = some τ →
      τ.deleted = false →
      timers'.timer = Function.update s.timers.timer t (some { τ with invokingCallback := false }) →
      (s.afterIo timers' io').Ledger := by
    intro t τ hc hτ hdel htimer
    have hmark : ∀ u,
        (timers'.timer u).map Timer.deleted = (s.timers.timer u).map Timer.deleted := by
      intro u
      rw [htimer, Function.update_apply]
      split_ifs with hu
      · rw [hu, hτ, Option.map_some, Option.map_some]
      · rfl
    refine hs.ledger.keep hmark (fun u σ hσ hmarked hu ↦ ?_) rfl rfl ?_
    · obtain rfl : t = u := Control.timerCallback.inj (hc.symm.trans hu)
      obtain rfl := Option.some.inj (hτ.symm.trans hσ)
      rw [hdel] at hmarked
      cases hmarked
    · rw [afterIo, releasedAtReturn_eq hc, released_eq_nil (hmark t), List.append_nil]
  cases hE with
  | @returnDeleted t τ _ hc hτ hdel =>
    have hnone : Function.update
          (Function.update s.timers.timer t (some { τ with invokingCallback := false })) t none =
        Function.update s.timers.timer t none := Function.update_idem ..
    have hmarked : s.timerFreed t = true := (hs.ledger.held t τ hτ).1.symm.trans hdel
    refine hs.ledger.release hτ hnone (fun u hu hcu ↦ ?_) rfl hmarked (fun _ _ ↦ rfl) ?_
    · exact absurd (Control.timerCallback.inj (hcu.symm.trans hc)) hu
    · rw [afterIo, releasedAtReturn_eq hc, released_of_none hτ (Function.update_self ..)]
  | returned hc hτ hdel | reinserted hc hτ hdel => exact hkeep hc hτ hdel rfl
  | tcpReturn hc =>
    refine hs.ledger.calm (hcalm (decide_eq_true hc)) rfl rfl ?_
    rw [afterIo, releasedAtReturn_of_calm (hcalm (decide_eq_true hc)), List.append_nil]

theorem Inv.callbackReturn {io' : IoLoop} {p : Prop} [Decidable p] {clock : Timeval.Reading}
    (hs : s.Inv) (hio : s.io.step .callbackReturn = some io')
    (h : exec TimerLoop.step anyStep s.timers (if p then [.callbackReturn clock] else []) =
      some timers') : (s.afterIo timers' io').Inv := by
  split at h
  · have hstep := exec_single h
    exact ⟨(TimerLoop.step_effect hs.timers hstep).inv hs.timers,
      (IoLoop.step_eq_some hio).wf hs.wf, hs.timed.step hs.wf hio,
      hs.nodes_of_plain hio rfl hstep rfl, hs.ledger_return hstep⟩
  · cases h
    refine hs.of_calm hio hs.timers (.of_eq rfl rfl) fun e d ↦ ?_
    have hturn := (IoLoop.step_eq_some hio).turn hs.wf hs.timed e
    rw [hturn.armedAt_eq hs.timed (Option.some_ne_none e).symm, hs.nodes]

/-- **One step.** -/
theorem Inv.step {a : Action} (hs : s.Inv) (h : s.step a = some s') : s'.Inv := by
  cases a with
  | timer a =>
    obtain ⟨ha, h⟩ := Option.ite_none_right_eq_some.mp h
    obtain ⟨timers', hstep, rfl⟩ := Option.map_eq_some_iff.mp h
    exact hs.timer ha hstep
  | io a clock alloc =>
    obtain ⟨io', hio, h⟩ := Option.bind_eq_some_iff.mp h
    obtain ⟨script, hscript, h⟩ := Option.bind_eq_some_iff.mp h
    obtain ⟨timers', hexec, rfl⟩ := Option.map_eq_some_iff.mp h
    have hheap : script = EventLoop.heapActions s.io io' a clock alloc →
      (s.afterIo timers' io').Inv := by
      rintro rfl
      obtain ⟨hinv, htimer, hcontrol, hnodes⟩ := hs.heapActions hio hexec
      exact hs.of_calm hio hinv (.of_eq htimer hcontrol) hnodes
    cases a with
    | runEnter | processEndgame | nextRound | epollFails | runExit =>
      cases hscript
      exact hs.plain hio rfl hexec rfl rfl
    | timerFires =>
      simp only [timerPart] at hscript
      split at hscript
      · next t hdue =>
        cases hscript
        exact hs.timerFires hio hdue hexec
      · cases hscript
    | timeoutFires i d sys =>
      obtain ⟨hdue, hscript⟩ := Option.ite_none_right_eq_some.mp hscript
      obtain rfl := Option.some.inj hscript
      exact hs.timeoutFires hio hdue hexec
    | callbackReturn =>
      obtain rfl := Option.some.inj hscript
      exact hs.callbackReturn hio hexec
    | _ => exact hheap (Option.some.inj hscript).symm

/-! ## No dangling and no stray node -/

/-- The event of a node has its memory, and the client has not freed it. -/
def Owned (s : EventLoop) : NodeRef → Prop
  | .timer t => s.timerFreed t = false ∧ (s.timers.timer t).isSome = true
  | .tcp e _ => s.io.freed e = false ∧ ∃ t, s.io.mem e = some (.tcp t)

/-- The heap is tended: what is in it has an owner, a TCP timeout is in it exactly while it is for a
pending operation, and a freed timer is not in it and is released once. -/
structure Tended (s : EventLoop) : Prop where
  owned : ∀ k, k < s.timers.timers.size → s.Owned (s.timers.timers.events k)
  armed : ∀ e d t, s.io.mem e = some (.tcp t) →
    (s.timers.timers.timerNodeActive (.ofDir e d) = true ↔ (t.timeout d).op ≠ .none)
  pending : ∀ e d t, s.io.mem e = some (.tcp t) → (t.timeout d).op ≠ .none →
    t.flag d = true ∧ (t.callbackOf (t.timeout d).op).isSome = true
  /-- While the callback of a freed timer is running it has not been released; after that it has
  been released once, and it does not come back into the heap. -/
  once : ∀ t, s.timerFreed t = true →
    (∀ k, k < s.timers.timers.size → s.timers.timers.events k ≠ .timer t) ∧
      s.timersReleased.count t = if s.timers.control = .timerCallback t then 0 else 1

namespace Inv

theorem owned_of_armed (hs : s.Inv) {n : NodeRef} {tv : Timeval}
    (hn : s.timers.timers.armed n = some tv) : s.Owned n := by
  cases n with
  | timer t =>
    obtain ⟨τ, hτ, hdel⟩ := hs.timers.live t tv hn
    exact ⟨(hs.ledger.held t τ hτ).1.symm.trans hdel, by rw [hτ]; rfl⟩
  | tcp e w =>
    obtain ⟨d, rfl⟩ : ∃ d : Dir, w = d.isWrite := by
      cases w
      · exact ⟨.read, rfl⟩
      · exact ⟨.write, rfl⟩
    have harmed : s.io.armedAt e d = true := by
      rw [← hs.nodes e d, NodeRef.ofDir, hn]
      rfl
    obtain ⟨x, hx, hactive⟩ := IoLoop.armedAt_eq_true_iff.mp harmed
    obtain ⟨t, ht, rfl⟩ := IoLoop.exists_of_timing hx
    refine ⟨?_, t, ht⟩
    rcases hs.timed e d _ hx with hoff | ⟨_, _, _, _, hlive⟩
    · rw [hoff] at hactive
      cases hactive
    · rw [← hs.wf.memory.deleted ht]
      cases d <;> exact hlive

theorem pending (hs : s.Inv) {e : ℕ} {d : Dir} {t : Tcp} (ht : s.io.mem e = some (.tcp t))
    (hop : (t.timeout d).op ≠ .none) :
    t.flag d = true ∧ (t.callbackOf (t.timeout d).op).isSome = true := by
  rw [← Tcp.timing_timeout] at hop ⊢
  rcases hs.timed e d _ (IoLoop.timing_of_tcp ht) with hoff | ⟨io, hon, hflag, hcallback, -⟩
  · rw [hoff] at hop
    exact absurd rfl hop
  · rw [hon]
    cases d <;> cases io <;> exact ⟨hflag, hcallback⟩

theorem released_once (hs : s.Inv) {t : ℕ} (hfreed : s.timerFreed t = true) :
    s.timersReleased.count t = if s.timers.control = .timerCallback t then 0 else 1 := by
  have hlt : t < s.nextTimer := by
    by_contra hge
    rw [(hs.ledger.fresh t (Nat.le_of_not_lt hge)).2.1] at hfreed
    cases hfreed
  cases hτ : s.timers.timer t with
  | some τ =>
    obtain ⟨hmark, hcount, hrunning⟩ := hs.ledger.held t τ hτ
    rw [if_pos (hrunning (hmark.trans hfreed)), hcount]
  | none =>
    have hc : s.timers.control ≠ .timerCallback t := by
      intro hc
      obtain ⟨τ, hτ', -⟩ := (hs.timers.invoking t).mp hc
      rw [hτ] at hτ'
      cases hτ'
    rw [if_neg hc, (hs.ledger.gone t hlt hτ).2]

theorem tended (hs : s.Inv) : s.Tended := by
  have hslot : ∀ k, k < s.timers.timers.size → s.Owned (s.timers.timers.events k) := fun k hk ↦
    hs.owned_of_armed (TimerMinHeap.armed_eq_some_iff.mpr ⟨(hs.timers.heap.holds.slot k hk).1, rfl⟩)
  refine ⟨hslot, fun e d t ht ↦ ?_, fun e d t ↦ hs.pending, fun t ht ↦ ⟨fun k hk heq ↦ ?_, ?_⟩⟩
  · have hsound := hs.timed e d _ (IoLoop.timing_of_tcp ht)
    rw [TimerMinHeap.timerNodeActive_eq, hs.nodes, ← Tcp.timing_timeout, ← hsound.active_iff,
      IoLoop.armedAt, IoLoop.timing_of_tcp ht, Option.any_some]
  · have howned := hslot k hk
    rw [heq] at howned
    rw [howned.1] at ht
    cases ht
  · exact hs.released_once ht

end Inv

/-- **No dangling and no stray node**, in every state of every run. -/
theorem tended_of_reachable (h : Reachable EventLoop.step anyStep init s) : s.Tended :=
  Inv.tended (h.invariant init_inv fun _ _ _ hs _ hstep ↦ hs.step hstep)

/-- A timer whose callback re-arms and then frees it, next to a connect with a timeout. -/
def freedInCallback : List Action :=
  [.timer (.timerNew 0), .timer (.timerAdd 0 ⟨1, 0⟩ false 0 (.ofSec 100) true),
    .io (.new .tcp) (.ofSec 100) true,
    .io (.tcp 0 (.connect true (some ⟨5, 0⟩) true) { Sys.ok 0 with connect := .inProgress })
      (.ofSec 100) true,
    .io .runEnter (.ofSec 102) true, .timer (.updateTime (.ofSec 102)),
    .io .timerFires (.ofSec 102) true, .timer (.timerAdd 0 ⟨1, 0⟩ true 0 (.ofSec 102) true),
    .timer (.timerFree 0), .io .callbackReturn (.ofSec 102) true]

theorem tended_of_reachable_freedInCallback :
    ∃ s, exec EventLoop.step anyStep init freedInCallback = some s ∧ s.timers.timers.size = 1 ∧
      s.timersReleased = [0] ∧ s.Tended := by
  have hrun : ((exec EventLoop.step anyStep init freedInCallback).map
      fun s ↦ (s.timers.timers.size, s.timersReleased)) = some (1, [0]) := by decide +kernel
  obtain ⟨s, hs, hfields⟩ := Option.map_eq_some_iff.mp hrun
  obtain ⟨hsize, hreleased⟩ := Prod.mk.inj hfields
  exact ⟨s, hs, hsize, hreleased, tended_of_reachable (Reachable.of_exec hs)⟩

end EventLoop

end Nanoev
