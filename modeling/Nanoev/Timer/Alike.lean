import Nanoev.Timer.Detached
import Nanoev.Timer.LoopInvariant
import Nanoev.Transition.Bisimulation

/-!
# Loops that nobody can tell apart

The fields of a timer event that is not armed are not read, unless its callback is running: then the
second half of `timer_event_node_callback` still reads `repeat` and `after`. Two loops that differ
in such fields only, and in the expiry of the node, are `Alike`, and no action can tell them apart:
it is possible in both or in neither, it shows the same (`observations`: return codes, time-outs of
the poller, and which nodes fire when, with which fields), and the loops are alike again after it
(`alike_bisimulation`).

The heap comes first: `Beside` relates two heaps that differ in the expiry of an inactive node, and
every operation of the heap keeps it.
-/

namespace Nanoev

open Transition

/-! ## The heap -/

namespace TimerMinHeap

variable {ν : Type} [DecidableEq ν] {h h' : TimerMinHeap ν} {x n : ν} {tv : Timeval}

/-- The same heap, but for the expiry of the node `x` when it is inactive. -/
def Beside (x : ν) (h h' : TimerMinHeap ν) : Prop :=
  h' = h ∨ (x ∉ h.activeNodes ∧ ∃ tv, h' = h.setTimeout x tv)

theorem Beside.active (hb : Beside x h h') (n : ν) :
    h'.timerNodeActive n = h.timerNodeActive n := by
  rcases hb with rfl | ⟨-, tv, rfl⟩
  · rfl
  · rw [timerNodeActive, timerNodeActive, setTimeout_idx]

theorem not_mem_minHeapErase (hi : h.Invariant) (hx : x ∉ h.activeNodes) (n : ν) :
    x ∉ (h.minHeapErase n).activeNodes := by
  rw [← armed_eq_none_iff] at hx ⊢
  rw [armed_minHeapErase hi, Function.update_apply, hx, ite_self]

theorem Beside.erase (hi : h.Invariant) (hb : Beside x h h') (n : ν) :
    Beside x (h.minHeapErase n) (h'.minHeapErase n) := by
  rcases hb with rfl | ⟨hx, tv, rfl⟩
  · exact Or.inl rfl
  · exact Or.inr ⟨not_mem_minHeapErase hi hx n, tv, minHeapErase_setTimeout hi hx n⟩

theorem not_mem_timerNodeAdd (hi : h.Invariant) (hx : x ∉ h.activeNodes) (hn : n ≠ x)
    (alloc : Bool) : x ∉ (h.timerNodeAdd n tv alloc).1.activeNodes := by
  rcases timerNodeAdd_cases h n tv alloc with ⟨-, heq⟩ | ⟨hinactive, -, -, heq⟩ |
    ⟨hinactive, capacity, -, heq⟩
  · rw [heq]
    exact hx
  · rw [heq, ← armed_eq_none_iff, armed_setTimeout hinactive]
    exact armed_eq_none_iff.mpr hx
  · rw [heq, ← armed_eq_none_iff, armed_pushLast hi hinactive, Function.update_of_ne hn.symm]
    exact armed_eq_none_iff.mpr hx

theorem Beside.add (hi : h.Invariant) (hb : Beside x h h') (n : ν) (tv : Timeval) (alloc : Bool) :
    (h'.timerNodeAdd n tv alloc).2 = (h.timerNodeAdd n tv alloc).2 ∧
      Beside x (h.timerNodeAdd n tv alloc).1 (h'.timerNodeAdd n tv alloc).1 := by
  rcases hb with rfl | ⟨hx, tv₀, rfl⟩
  · exact ⟨rfl, Or.inl rfl⟩
  · by_cases hn : n = x
    · subst hn
      rw [timerNodeAdd_setTimeout_self hx]
      exact ⟨rfl, Or.inl rfl⟩
    · rw [timerNodeAdd_setTimeout hi hx hn]
      exact ⟨rfl, Or.inr ⟨not_mem_timerNodeAdd hi hx hn alloc, tv₀, rfl⟩⟩

theorem Beside.push (hi : h.Invariant) (hb : Beside x h h') (hn : n ∉ h.activeNodes)
    (tv : Timeval) :
    Beside x ((h.setTimeout n tv).pushLast n) ((h'.setTimeout n tv).pushLast n) := by
  rcases hb with rfl | ⟨hx, tv₀, rfl⟩
  · exact Or.inl rfl
  · by_cases hnx : n = x
    · subst hnx
      rw [setTimeout_setTimeout]
      exact Or.inl rfl
    · refine Or.inr ⟨?_, tv₀, ?_⟩
      · have harmed := armed_pushLast hi hn tv h.capacity
        rw [← armed_eq_none_iff] at hx ⊢
        exact (congrFun harmed x).trans ((Function.update_of_ne (Ne.symm hnx) ..).trans hx)
      · rw [setTimeout_comm hnx]
        exact pushLast_setTimeout (h := h.setTimeout n tv) (hi.slot_ne hx) hnx

theorem Beside.init (hb : Beside x h h') (n : ν) :
    Beside x (h.timerNodeInit n) (h'.timerNodeInit n) := by
  rcases hb with rfl | ⟨hx, tv, rfl⟩
  · exact Or.inl rfl
  · by_cases hnx : n = x
    · subst hnx
      exact Or.inl timerNodeInit_setTimeout_self
    · refine Or.inr ⟨?_, tv, timerNodeInit_setTimeout hnx⟩
      rw [mem_activeNodes_iff] at hx ⊢
      rwa [timerNodeInit, setNode_node_of_ne _ _ _ (Ne.symm hnx)]

theorem Beside.adjust (hi : h.Invariant) (hb : Beside x h h') (off : Timeval) :
    Beside x (h.timersAdjustBackward off).1 (h'.timersAdjustBackward off).1 := by
  rcases hb with rfl | ⟨hx, tv, rfl⟩
  · exact Or.inl rfl
  · rw [timersAdjustBackward_setTimeout hi hx]
    refine Or.inr ⟨?_, tv, rfl⟩
    rw [← armed_eq_none_iff] at hx ⊢
    rw [armed_timersAdjustBackward hi, hx, Option.map_none]

theorem Beside.root (hi : h.Invariant) (hb : Beside x h h') :
    h'.size = h.size ∧ h'.events = h.events ∧
      (h.size ≠ 0 → h'.node (h.events 0) = h.node (h.events 0)) := by
  rcases hb with rfl | ⟨hx, tv, rfl⟩
  · exact ⟨rfl, rfl, fun _ ↦ rfl⟩
  · exact ⟨rfl, rfl, root_setTimeout hi hx⟩

theorem Beside.timersTimeout (hi : h.Invariant) (hb : Beside x h h') (now timeout : Timeval) :
    h'.timersTimeout now timeout = h.timersTimeout now timeout := by
  rcases hb with rfl | ⟨hx, tv, rfl⟩
  · rfl
  · exact (timersTimeout_setTimeout hi hx now timeout).1

end TimerMinHeap

namespace TimerLoop

open TimerMinHeap

/-! ## What can be observed -/

inductive Observation
  /-- A call has returned. -/
  | returned (code : RetCode)
  /-- A node fires, at the loop time `now`; a timer event with its callback, its interval and
  whether it is repeating. -/
  | fired (now : Timeval) (n : NodeRef) (timer : Option (ℕ × Timeval × Bool))
  /-- The poller is asked for events, with this time-out. -/
  | polled (timeout : Timeval)
deriving DecidableEq, Repr

/-- The fields of the timer event that the node belongs to. -/
def timerFields (s : TimerLoop) : NodeRef → Option (ℕ × Timeval × Bool)
  | .timer t => (s.timer t).map fun τ ↦ (τ.callback, τ.after, τ.repeats)
  | .tcp _ _ => none

def expiredRoot (s : TimerLoop) : Option NodeRef :=
  if s.timers.size = 0 then none
  else if timeCmp (s.timers.node (s.timers.events 0)).timeout s.now > 0 then none
  else some (s.timers.events 0)

def observations (s : TimerLoop) : Action → List Observation
  | .timerAdd t after repeats callback clock alloc =>
    ((s.liveTimer t).map fun τ ↦
      .returned (s.timerAdd t τ after repeats callback clock alloc).2).toList
  | .timerDel t => ((s.liveTimer t).map fun τ ↦ .returned (s.timerDel t τ).2).toList
  | .tcpTimeoutAdd e write after clock alloc =>
    [.returned (s.nodeAdd (.tcp e write) after clock alloc).2]
  | .processTurn => (s.expiredRoot.map fun n ↦ .fired s.now n (s.timerFields n)).toList
  | .poll => [.polled (s.timers.timersTimeout s.now s.timeout)]
  | _ => []

theorem processTurn_eq (s : TimerLoop) : s.processTurn =
    match s.expiredRoot with
    | none => { s with control := .waiting }
    | some (.timer t) => (s.fire (.timer t)).invokeTimer t
    | some (.tcp e write) => { s.fire (.tcp e write) with control := .tcpCallback } := by
  unfold processTurn expiredRoot
  dsimp only
  split_ifs
  · rfl
  · rfl
  · cases s.timers.events 0 <;> rfl

/-! ## Loops that are alike -/

/-- Fields of a timer that is not armed: what can still be read of them is the same. -/
structure SameInactive (τ τ' : Timer) : Prop where
  invoking : τ'.invokingCallback = τ.invokingCallback
  deleted : τ'.deleted = τ.deleted
  once : τ.invokingCallback = true → τ.repeats = false ∧ τ'.repeats = false

/-- The loops differ at most in fields of the timer `t` that are not read. -/
structure Alike (t : ℕ) (s s' : TimerLoop) : Prop where
  now : s'.now = s.now
  timeout : s'.timeout = s.timeout
  control : s'.control = s.control
  timers : Beside (.timer t) s.timers s'.timers
  others : ∀ u ≠ t, s'.timer u = s.timer u
  self : s'.timer t = s.timer t ∨
    (.timer t ∉ s.timers.activeNodes ∧ Option.Rel SameInactive (s.timer t) (s'.timer t))

variable {s s' z z' : TimerLoop} {t u : ℕ} {n : NodeRef} {clock : Timeval.Reading}

theorem Alike.congr (h : Alike t s s') (hnow : z'.now = z.now) (htimeout : z'.timeout = z.timeout)
    (hcontrol : z'.control = z.control) (htimers : z.timers = s.timers)
    (htimers' : z'.timers = s'.timers) (htimer : z.timer = s.timer)
    (htimer' : z'.timer = s'.timer) : Alike t z z' := by
  refine ⟨hnow, htimeout, hcontrol, ?_, ?_, ?_⟩
  · rw [htimers, htimers']
    exact h.timers
  · rw [htimer, htimer']
    exact h.others
  · rw [htimer, htimer', htimers]
    exact h.self

theorem Alike.heap (h : Alike t s s') (hnow : z'.now = z.now) (htimeout : z'.timeout = z.timeout)
    (hcontrol : z'.control = z.control) (hb : Beside (.timer t) z.timers z'.timers)
    (hkeep : .timer t ∉ s.timers.activeNodes → .timer t ∉ z.timers.activeNodes)
    (htimer : z.timer = s.timer) (htimer' : z'.timer = s'.timer) : Alike t z z' := by
  refine ⟨hnow, htimeout, hcontrol, hb, ?_, ?_⟩
  · rw [htimer, htimer']
    exact h.others
  · rw [htimer, htimer']
    exact h.self.imp_right fun hself ↦ ⟨hkeep hself.1, hself.2⟩

theorem Alike.setTimer (h : Alike t s s') (u : ℕ) (o : Option Timer) :
    Alike t (s.setTimer u o) (s'.setTimer u o) := by
  refine ⟨h.now, h.timeout, h.control, h.timers, fun v hv ↦ ?_, ?_⟩
  · rw [setTimer_timer, setTimer_timer, Function.update_apply, Function.update_apply, h.others v hv]
  · by_cases hu : t = u
    · subst hu
      left
      rw [setTimer_timer, setTimer_timer, Function.update_self, Function.update_self]
    · rw [setTimer_timer, setTimer_timer, Function.update_of_ne hu, Function.update_of_ne hu]
      exact h.self

theorem Alike.setSelf (h : Alike t s s') (hx : .timer t ∉ s.timers.activeNodes) {τ τ' : Timer}
    (hτ : SameInactive τ τ') : Alike t (s.setTimer t (some τ)) (s'.setTimer t (some τ')) := by
  refine ⟨h.now, h.timeout, h.control, h.timers, fun v hv ↦ ?_, Or.inr ⟨hx, ?_⟩⟩
  · rw [setTimer_timer, setTimer_timer, Function.update_of_ne hv, Function.update_of_ne hv]
    exact h.others v hv
  · rw [setTimer_timer, setTimer_timer, Function.update_self, Function.update_self]
    exact .some hτ

theorem Alike.erase (hs : s.Inv) (h : Alike t s s') (n : NodeRef) :
    Alike t (s.erase n) (s'.erase n) :=
  h.heap h.now h.timeout h.control (h.timers.erase hs.heap n)
    (fun hx ↦ not_mem_minHeapErase hs.heap hx n) rfl rfl

theorem Alike.record (h : Alike t s s') (o : TimerObs) : Alike t (s.record o) (s'.record o) :=
  h.congr h.now h.timeout h.control rfl rfl rfl rfl

theorem Alike.setControl (h : Alike t s s') (c : Control) :
    Alike t { s with control := c } { s' with control := c } :=
  h.congr h.now h.timeout rfl rfl rfl rfl rfl

theorem Alike.inUserCode (h : Alike t s s') : s'.inUserCode = s.inUserCode := by
  unfold TimerLoop.inUserCode
  rw [h.control]

theorem Alike.loopNow (h : Alike t s s') (clock : Timeval.Reading) :
    s'.loopNow clock = s.loopNow clock := by
  unfold TimerLoop.loopNow
  rw [h.now]

theorem Alike.timer_eq (h : Alike t s s') (hu : u = t → .timer t ∈ s.timers.activeNodes) :
    s'.timer u = s.timer u := by
  by_cases hut : u = t
  · subst hut
    exact h.self.resolve_right fun hself ↦ hself.1 (hu rfl)
  · exact h.others u hut

/-- The fields of a timer: the same, or those of the timer `t` while it is inactive. -/
theorem Alike.timer_cases (h : Alike t s s') (u : ℕ) :
    s'.timer u = s.timer u ∨ (u = t ∧ .timer t ∉ s.timers.activeNodes ∧
      Option.Rel SameInactive (s.timer t) (s'.timer t)) := by
  by_cases hu : u = t
  · subst hu
    exact h.self.imp_right fun hself ↦ ⟨rfl, hself⟩
  · exact Or.inl (h.others u hu)

/-! ## Calls -/

theorem nodeAdd_frame (s : TimerLoop) (n : NodeRef) (after : Timeval) (clock : Timeval.Reading)
    (alloc : Bool) :
    let r := s.timers.timerNodeAdd n (timeAdd (s.loopNow clock) after) alloc
    let z := (s.nodeAdd n after clock alloc).1
    (s.nodeAdd n after clock alloc).2 = r.2 ∧ z.timers = r.1 ∧ z.timer = s.timer ∧
      z.now = s.now ∧ z.timeout = s.timeout ∧ z.control = s.control := by
  unfold nodeAdd nodeAddBy
  dsimp only
  rw [assert_timers]
  rcases s.timers.timerNodeAdd n (timeAdd (s.loopNow clock) after) alloc with ⟨timers, code⟩
  cases code <;> exact ⟨rfl, rfl, rfl, rfl, rfl, rfl⟩

theorem Alike.nodeAdd (hs : s.Inv) (h : Alike t s s') (n : NodeRef) (after : Timeval)
    (clock : Timeval.Reading) (alloc : Bool)
    (hn : n = .timer t → s'.timer t = s.timer t) :
    (s'.nodeAdd n after clock alloc).2 = (s.nodeAdd n after clock alloc).2 ∧
      Alike t (s.nodeAdd n after clock alloc).1 (s'.nodeAdd n after clock alloc).1 := by
  obtain ⟨hcode, htimers, htimer, hnow, htimeout, hcontrol⟩ := nodeAdd_frame s n after clock alloc
  obtain ⟨hcode', htimers', htimer', hnow', htimeout', hcontrol'⟩ :=
    nodeAdd_frame s' n after clock alloc
  rw [h.loopNow] at hcode' htimers'
  obtain ⟨hsame, hb⟩ := h.timers.add hs.heap n (timeAdd (s.loopNow clock) after) alloc
  refine ⟨by rw [hcode, hcode', hsame], by rw [hnow, hnow', h.now],
    by rw [htimeout, htimeout', h.timeout], by rw [hcontrol, hcontrol', h.control],
    by rw [htimers, htimers']; exact hb, ?_, ?_⟩
  · rw [htimer, htimer']
    exact h.others
  · rw [htimer, htimer', htimers]
    by_cases hnt : n = .timer t
    · exact Or.inl (hn hnt)
    · refine h.self.imp_right fun hself ↦ ⟨?_, hself.2⟩
      exact not_mem_timerNodeAdd hs.heap hself.1 hnt alloc

theorem Alike.timer_rel (h : Alike t s s') (u : ℕ) :
    Option.Rel (fun τ τ' ↦ s.timer u = some τ ∧ s'.timer u = some τ' ∧ (τ' = τ ∨
      (u = t ∧ .timer t ∉ s.timers.activeNodes ∧ SameInactive τ τ')))
      (s.timer u) (s'.timer u) := by
  rcases h.timer_cases u with heq | ⟨rfl, hx, hrel⟩
  · rw [heq]
    cases s.timer u with
    | none => exact .none
    | some τ => exact .some ⟨rfl, rfl, Or.inl rfl⟩
  · generalize s.timer u = o at hrel ⊢
    generalize s'.timer u = o' at hrel ⊢
    cases hrel with
    | none => exact .none
    | some hτ => exact .some ⟨rfl, rfl, Or.inr ⟨rfl, hx, hτ⟩⟩

theorem Alike.liveTimer (h : Alike t s s') (u : ℕ) :
    Option.Rel (fun τ τ' ↦ s.timer u = some τ ∧ s'.timer u = some τ' ∧ (τ' = τ ∨
      (u = t ∧ .timer t ∉ s.timers.activeNodes ∧ SameInactive τ τ')))
      (s.liveTimer u) (s'.liveTimer u) := by
  have hrel := h.timer_rel u
  unfold TimerLoop.liveTimer
  generalize s.timer u = o at hrel ⊢
  generalize s'.timer u = o' at hrel ⊢
  cases hrel with
  | none => exact .none
  | @some τ τ' hτ =>
    have hdel : τ'.deleted = τ.deleted := by
      rcases hτ.2.2 with rfl | ⟨-, -, hsame⟩
      · rfl
      · exact hsame.deleted
    rw [Option.filter_some, Option.filter_some, hdel]
    split_ifs
    · exact .some hτ
    · exact .none

/-- The arguments are stored over the fields in which the timers may differ. -/
theorem Alike.timerAdd (hs : s.Inv) (h : Alike t s s') {τ τ' : Timer}
    (hτ : τ' = τ ∨ (u = t ∧ .timer t ∉ s.timers.activeNodes ∧ SameInactive τ τ'))
    (after : Timeval) (repeats : Bool) (callback : ℕ) (clock : Timeval.Reading) (alloc : Bool)
    (hu : s.timer u = some τ) :
    (s'.timerAdd u τ' after repeats callback clock alloc).2 =
        (s.timerAdd u τ after repeats callback clock alloc).2 ∧
      Alike t (s.timerAdd u τ after repeats callback clock alloc).1
        (s'.timerAdd u τ' after repeats callback clock alloc).1 := by
  have hfields : ({ τ' with after, repeats, callback } : Timer) =
      { τ with after, repeats, callback } := by
    rcases hτ with rfl | ⟨-, -, hτ⟩
    · rfl
    · rw [Timer.mk.injEq]
      exact ⟨hτ.invoking, hτ.deleted, rfl, rfl, rfl⟩
  unfold TimerLoop.timerAdd timerAddBy
  rw [h.timers.active, hfields]
  split_ifs with hactive hinvalid
  · exact ⟨rfl, h⟩
  · exact ⟨rfl, h⟩
  · have hstored := h.setTimer u (some { τ with after, repeats, callback })
    have hafter := invalidDelay_eq_false_iff.mp (Bool.eq_false_iff.mpr hinvalid)
    have hinv : (s.setTimer u (some { τ with after, repeats, callback })).Inv :=
      hs.setTimer hu _ hafter rfl (Or.inl rfl)
    have hself : NodeRef.timer u = .timer t →
        (s'.setTimer u (some { τ with after, repeats, callback })).timer t =
          (s.setTimer u (some { τ with after, repeats, callback })).timer t := by
      intro heq
      obtain rfl := NodeRef.timer.inj heq
      rw [setTimer_timer, setTimer_timer, Function.update_self, Function.update_self]
    obtain ⟨hcode, hadd⟩ := hstored.nodeAdd hinv (.timer u) after clock alloc hself
    unfold TimerLoop.nodeAdd at hcode hadd
    dsimp only
    rcases hr : (s.setTimer u (some { τ with after, repeats, callback })).nodeAddBy timeAdd
      (.timer u) after clock alloc with ⟨z, code⟩
    rcases hr' : (s'.setTimer u (some { τ with after, repeats, callback })).nodeAddBy timeAdd
      (.timer u) after clock alloc with ⟨z', code'⟩
    rw [hr, hr'] at hcode hadd
    obtain rfl : code' = code := hcode
    cases code' with
    | success => exact ⟨rfl, hadd.record _⟩
    | _ => exact ⟨rfl, hadd⟩

theorem Alike.timerDel (hs : s.Inv) (h : Alike t s s') {τ τ' : Timer}
    (hτ : τ' = τ ∨ (u = t ∧ .timer t ∉ s.timers.activeNodes ∧ SameInactive τ τ')) :
    (s'.timerDel u τ').2 = (s.timerDel u τ).2 ∧
      Alike t (s.timerDel u τ).1 (s'.timerDel u τ').1 := by
  have hinvoking : τ'.invokingCallback = τ.invokingCallback := by
    rcases hτ with rfl | ⟨-, -, hτ⟩
    · rfl
    · exact hτ.invoking
  unfold TimerLoop.timerDel
  rw [h.timers.active, hinvoking]
  split_ifs with hinv hactive
  · refine ⟨rfl, Alike.record ?_ _⟩
    rcases hτ with rfl | ⟨rfl, hx, hτ⟩
    · exact h.setTimer u _
    · exact h.setSelf hx ⟨rfl, hτ.deleted, fun _ ↦ ⟨rfl, rfl⟩⟩
  · exact ⟨rfl, (h.erase hs _).record _⟩
  · exact ⟨rfl, h⟩

theorem Alike.timerFree (hs : s.Inv) (h : Alike t s s') {τ τ' : Timer}
    (hτ : τ' = τ ∨ (u = t ∧ .timer t ∉ s.timers.activeNodes ∧ SameInactive τ τ')) :
    Alike t (s.timerFree u τ) (s'.timerFree u τ') := by
  have hinvoking : τ'.invokingCallback = τ.invokingCallback := by
    rcases hτ with rfl | ⟨-, -, hτ⟩
    · rfl
    · exact hτ.invoking
  have herase := h.erase hs (.timer u)
  unfold TimerLoop.timerFree
  rw [hinvoking]
  split_ifs with hinv
  · rcases hτ with rfl | ⟨rfl, hx, hτ⟩
    · exact herase.setTimer u _
    · refine herase.setSelf (not_mem_minHeapErase hs.heap hx _) ?_
      exact ⟨rfl, rfl, fun _ ↦ ⟨rfl, rfl⟩⟩
  · exact herase.setTimer u none

/-! ## The loop -/

theorem Alike.updateTime (hs : s.Inv) (h : Alike t s s') (tv : Timeval.Reading) :
    Alike t (s.updateTime tv) (s'.updateTime tv) := by
  unfold TimerLoop.updateTime
  dsimp only
  rw [h.now]
  split_ifs
  · refine h.heap rfl h.timeout h.control (h.timers.adjust hs.heap _) (fun hx ↦ ?_) rfl rfl
    rw [← armed_eq_none_iff] at hx ⊢
    exact (armed_timersAdjustBackward hs.heap _ _).trans (by rw [hx, Option.map_none])
  · exact h.congr rfl h.timeout h.control rfl rfl rfl rfl

theorem Alike.expiredRoot (hs : s.Inv) (h : Alike t s s') : s'.expiredRoot = s.expiredRoot := by
  obtain ⟨hsize, hevents, hroot⟩ := h.timers.root hs.heap
  unfold TimerLoop.expiredRoot
  rw [hsize, hevents, h.now]
  by_cases hzero : s.timers.size = 0
  · rw [if_pos hzero, if_pos hzero]
  · rw [hroot hzero]

theorem Inv.expiredRoot_mem (hs : s.Inv) (hroot : s.expiredRoot = some n) :
    n ∈ s.timers.activeNodes := by
  unfold expiredRoot at hroot
  split_ifs at hroot with hzero hgt
  obtain rfl := Option.some.inj hroot
  exact (hs.heap.holds.slot 0 (Nat.pos_of_ne_zero hzero)).1

theorem Alike.processTurn (hs : s.Inv) (h : Alike t s s') :
    Alike t s.processTurn s'.processTurn := by
  rw [processTurn_eq, processTurn_eq, h.expiredRoot hs]
  cases hroot : s.expiredRoot with
  | none => exact h.setControl _
  | some n =>
    have hmem := hs.expiredRoot_mem hroot
    have hfire : Alike t (s.fire n) (s'.fire n) := (h.erase hs n).record _
    cases n with
    | timer u =>
      -- the timer that fires was armed, so its fields are the same
      have hτ : (s'.fire (.timer u)).timer u = (s.fire (.timer u)).timer u :=
        h.timer_eq fun hut ↦ hut ▸ hmem
      dsimp only
      unfold invokeTimer
      rw [hτ]
      cases (s.fire (.timer u)).timer u with
      | none => exact hfire.setControl _
      | some τ => exact (hfire.setTimer u _).setControl _
    | tcp e write => exact hfire.setControl _

theorem Alike.timerFields (hs : s.Inv) (h : Alike t s s') (hroot : s.expiredRoot = some n) :
    s'.timerFields n = s.timerFields n := by
  cases n with
  | timer u =>
    have hτ : s'.timer u = s.timer u := h.timer_eq fun hut ↦ hut ▸ hs.expiredRoot_mem hroot
    rw [TimerLoop.timerFields, TimerLoop.timerFields, hτ]
  | tcp e write => rfl

/-- The second half of `timer_event_node_callback`, for a timer that is not put back. -/
theorem timerReturn_of_once {τ : Timer} (hτ : τ.repeats = false) (clock : Timeval.Reading) :
    s.timerReturn u τ clock =
      if τ.deleted then ({ s.setTimer u (some { τ with invokingCallback := false }) with
        control := .processing }.setTimer u none)
      else { s.setTimer u (some { τ with invokingCallback := false }) with
        control := .processing } := by
  unfold timerReturn
  rcases timerReturnBy_cases timeAdd s u τ clock with
    ⟨hdel, heq⟩ | ⟨hdel, -, heq⟩ | ⟨-, hrepeats, -⟩
  · rw [heq, if_pos hdel]
  · rw [heq, if_neg (Bool.eq_false_iff.mp hdel)]
  · rw [hτ] at hrepeats
    cases hrepeats

/-- A timer is put back in both loops. -/
theorem Alike.push (h : Alike t s s') (hi : s.timers.Invariant)
    (hn : NodeRef.timer u ∉ s.timers.activeNodes) (hu : s'.timer u = s.timer u) (tv : Timeval)
    (hnow : z'.now = z.now) (htimeout : z'.timeout = z.timeout) (hcontrol : z'.control = z.control)
    (htimers : z.timers = (s.timers.setTimeout (.timer u) tv).pushLast (.timer u))
    (htimers' : z'.timers = (s'.timers.setTimeout (.timer u) tv).pushLast (.timer u))
    (htimer : z.timer = s.timer) (htimer' : z'.timer = s'.timer) : Alike t z z' := by
  have hb : Beside (.timer t) z.timers z'.timers := by
    rw [htimers, htimers']
    exact h.timers.push hi hn tv
  by_cases hut : t = u
  · subst hut
    refine ⟨hnow, htimeout, hcontrol, hb, ?_, Or.inl ?_⟩
    · rw [htimer, htimer']
      exact h.others
    · rw [htimer, htimer', hu]
  · refine h.heap hnow htimeout hcontrol hb (fun hself ↦ ?_) htimer htimer'
    have hother : NodeRef.timer t ≠ .timer u := fun heq ↦ hut (NodeRef.timer.inj heq)
    rw [← armed_eq_none_iff] at hself ⊢
    rw [htimers]
    exact (congrFun (armed_pushLast hi hn tv s.timers.capacity) _).trans
      ((Function.update_of_ne hother ..).trans hself)

theorem Alike.timerReturn (hs : s.Inv) (h : Alike t s s') {τ τ' : Timer}
    (hc : s.control = .timerCallback u) (hu : s.timer u = some τ)
    (hτ : τ' = τ ∨ (u = t ∧ .timer t ∉ s.timers.activeNodes ∧ SameInactive τ τ'))
    (clock : Timeval.Reading) : Alike t (s.timerReturn u τ clock) (s'.timerReturn u τ' clock) := by
  have hactive := h.timers.active (.timer u)
  rcases hτ with rfl | ⟨rfl, hx, hτ⟩
  · have hleft := (h.setTimer u (some { τ' with invokingCallback := false })).setControl .processing
    have hre : s'.reinserts u τ' = s.reinserts u τ' := by
      rw [reinserts, reinserts, hactive]
    unfold TimerLoop.timerReturn timerReturnBy
    rw [hre]
    split_ifs with hdel hins
    · exact hleft.setTimer u none
    · have hn : NodeRef.timer u ∉ s.timers.activeNodes := by
        rw [mem_activeNodes]
        intro hact
        rw [reinserts, hact, Bool.not_true, Bool.and_false] at hins
        cases hins
      have hself : ∀ x : TimerLoop, Function.update x.timer u _ u = some _ :=
        fun x ↦ Function.update_self u (some { τ' with invokingCallback := false }) x.timer
      refine hleft.push hs.heap hn ((hself s').trans (hself s).symm)
        (timeAdd (s.loopNow clock) τ'.after) hleft.now hleft.timeout rfl rfl ?_ rfl rfl
      rw [← h.loopNow]
      rfl
    · exact hleft
  · -- the callback is that of the timer itself, which is not put back
    obtain ⟨τ₀, hτ₀, hinvoking⟩ := (hs.invoking u).mp hc
    rw [hu] at hτ₀
    obtain rfl := Option.some.inj hτ₀
    obtain ⟨honce, honce'⟩ := hτ.once hinvoking
    have hfields : SameInactive { τ with invokingCallback := false }
        { τ' with invokingCallback := false } :=
      ⟨rfl, hτ.deleted, fun hfalse ↦ absurd hfalse Bool.false_ne_true⟩
    have hleft : Alike u
        { s.setTimer u (some { τ with invokingCallback := false }) with control := .processing }
        { s'.setTimer u (some { τ' with invokingCallback := false }) with
          control := .processing } :=
      (h.setSelf hx hfields).setControl .processing
    rw [timerReturn_of_once honce, timerReturn_of_once honce']
    by_cases hdel : τ.deleted = true
    · rw [if_pos hdel, if_pos (hτ.deleted.trans hdel)]
      exact hleft.setTimer u none
    · rw [if_neg hdel, if_neg fun hdel' ↦ hdel (hτ.deleted.symm.trans hdel')]
      exact hleft

/-- **One step**: what is possible in one loop is possible in the other. -/
theorem Alike.step (hs : s.Inv) (h : Alike t s s') (a : Action) :
    Option.Rel (Alike t) (step s a) (step s' a) := by
  have huser : s'.inUserCode = true ↔ s.inUserCode = true := by rw [h.inUserCode]
  have hcontrol : ∀ c, s'.control = c ↔ s.control = c := fun c ↦ by rw [h.control]
  cases a with
  | timerNew u =>
    refine rel_guard (and_congr huser (none_iff_of_rel (h.timer_rel u))) fun hguard ↦ ?_
    have hinit : Alike t { s with timers := s.timers.timerNodeInit (.timer u) }
        { s' with timers := s'.timers.timerNodeInit (.timer u) } := by
      refine h.heap h.now h.timeout h.control (h.timers.init _) (fun hx ↦ ?_) rfl rfl
      rw [(hs.heap.timerNodeInit (hs.not_mem_of_none hguard.2)).2]
      exact hx
    exact hinit.setTimer u _
  | timerAdd u after repeats callback clock alloc =>
    unfold TimerLoop.step stepBy
    dsimp only
    rw [h.inUserCode]
    split_ifs
    · exact rel_map (h.liveTimer u) fun τ τ' hτ ↦
        (h.timerAdd hs hτ.2.2 after repeats callback clock alloc hτ.1).2
    · exact .none
  | timerDel u =>
    unfold TimerLoop.step stepBy
    dsimp only
    rw [h.inUserCode]
    split_ifs
    · exact rel_map (h.liveTimer u) fun τ τ' hτ ↦ (h.timerDel hs hτ.2.2).2
    · exact .none
  | timerFree u =>
    unfold TimerLoop.step stepBy
    dsimp only
    rw [h.inUserCode]
    split_ifs
    · exact rel_map (h.liveTimer u) fun τ τ' hτ ↦ h.timerFree hs hτ.2.2
    · exact .none
  | tcpTimeoutAdd e write after clock alloc =>
    exact rel_guard (and_congr_left' huser) fun _ ↦
      (h.nodeAdd hs (.tcp e write) after clock alloc nofun).2
  | tcpTimeoutDel e write => exact rel_guard huser fun _ ↦ h.erase hs _
  | runEnter clock =>
    exact rel_guard (hcontrol _) fun _ ↦ h.congr rfl h.timeout rfl rfl rfl rfl rfl
  | updateTime clock =>
    exact rel_guard (hcontrol _) fun _ ↦ (h.updateTime hs clock).setControl _
  | processTurn => exact rel_guard (hcontrol _) fun _ ↦ h.processTurn hs
  | callbackReturn clock =>
    unfold TimerLoop.step stepBy
    dsimp only
    rw [h.control]
    cases hc : s.control with
    | timerCallback u =>
      -- the fields of the timer are read again here; they differ only if it is not put back
      exact rel_map (h.timer_rel u) fun τ τ' hτ ↦ h.timerReturn hs hc hτ.1 hτ.2.2 clock
    | tcpCallback => exact .some (h.setControl _)
    | _ => exact .none
  | poll =>
    refine rel_guard (hcontrol _) fun _ ↦ h.congr h.now ?_ rfl rfl rfl rfl rfl
    dsimp only
    rw [h.now, h.timeout]
    exact h.timers.timersTimeout hs.heap _ _
  | nextIteration | runExit => exact rel_guard (hcontrol _) fun _ ↦ h.setControl _

theorem Alike.observations (hs : s.Inv) (h : Alike t s s') (a : Action) :
    s.observations a = s'.observations a := by
  cases a with
  | timerAdd u after repeats callback clock alloc =>
    refine congrArg Option.toList (map_eq_of_rel (h.liveTimer u) fun τ τ' hτ ↦ ?_)
    rw [(h.timerAdd hs hτ.2.2 after repeats callback clock alloc hτ.1).1]
  | timerDel u =>
    refine congrArg Option.toList (map_eq_of_rel (h.liveTimer u) fun τ τ' hτ ↦ ?_)
    rw [(h.timerDel hs hτ.2.2).1]
  | tcpTimeoutAdd e write after clock alloc =>
    unfold TimerLoop.observations
    dsimp only
    rw [(h.nodeAdd hs (.tcp e write) after clock alloc nofun).1]
  | processTurn =>
    unfold TimerLoop.observations
    dsimp only
    rw [h.expiredRoot hs, h.now]
    cases hroot : s.expiredRoot with
    | none => rfl
    | some n =>
      dsimp only [Option.map_some]
      rw [h.timerFields hs hroot]
  | poll =>
    unfold TimerLoop.observations
    dsimp only
    rw [h.now, h.timeout, h.timers.timersTimeout hs.heap]
  | _ => rfl

theorem alike_bisimulation (t : ℕ) :
    Bisimulation step observations fun s s' ↦ s.Inv ∧ Alike t s s' where
  step s s' a hR := by
    obtain ⟨hs, h⟩ := hR
    have hrel := h.step hs a
    cases hstep : step s a with
    | none =>
      rw [hstep] at hrel
      generalize step s' a = o at hrel ⊢
      cases hrel
      exact .none
    | some z =>
      rw [hstep] at hrel
      generalize step s' a = o at hrel ⊢
      cases hrel with
      | some hz => exact .some ⟨(step_effect hs hstep).inv hs, hz⟩
  emit s s' a hR := hR.2.observations hR.1 a

end TimerLoop

end Nanoev
