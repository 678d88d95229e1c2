import Nanoev.Timer.Armed
import Nanoev.Timer.Loop

/-!
# The invariant of the timer loop

`Inv` ties the three parts of the state together: the heap represents its armed nodes, an armed node
of a timer event belongs to an event that has not been freed, and the flag
`NANOEV_TIMER_FLAG_INVOKING_CALLBACK` says which callback is running. It holds in every reachable
state, whatever the client does and whatever the clock reads.

The two ways into the heap, `timer_node_add` and the re-insertion of a repeating timer, have the
common form `arm`; `nodeAdd_cases` and `timerReturn_cases` reduce the calls to it.
-/

namespace Nanoev

namespace TimerLoop

open TimerMinHeap Transition

/-! ## What a step can do

`EffectBy` lists the outcomes of a step, one constructor for each path through the code, with the
new state. It has the addition of time values as a parameter, since everything up to the order of
the expiries is the same for unbounded and for 64-bit seconds. -/

/-- The node `n` is put into the heap, in an array with room for `capacity` nodes. -/
def arm (s : TimerLoop) (n : NodeRef) (after expires : Timeval) (capacity : ℕ) : TimerLoop :=
  { s with
    timers := pushLast { s.timers.setTimeout n expires with capacity := capacity } n }.recordArming
    n after

/-- The expiry of the inactive node `n` is written, and nothing else happens. -/
def writeTimeout (s : TimerLoop) (n : NodeRef) (expires : Timeval) : TimerLoop :=
  { s with timers := s.timers.setTimeout n expires }

/-- The state after the assertion of the `time_add` that computes the expiry of a node. -/
def expiryAsserted (s : TimerLoop) (after : Timeval) (clock : Timeval.Reading) : TimerLoop :=
  s.assert (timeAddAsserts (s.loopNow clock) after)

/-- The outcomes of a step, in terms of the armed nodes. -/
inductive EffectBy (add : Timeval → Timeval → Timeval) (s : TimerLoop) :
    Action → TimerLoop → Prop
  | timerNew {t : ℕ} (hnone : s.timer t = none) : EffectBy add s (.timerNew t) (s.timerNew t)
  /-- The timer is active, or the delay is not valid. -/
  | addRefused {t after repeats callback clock alloc} :
      EffectBy add s (.timerAdd t after repeats callback clock alloc) s
  | addFailed {t τ after repeats callback clock alloc} (hτ : s.timer t = some τ)
      (hdel : τ.deleted = false) (hn : .timer t ∉ s.timers.activeNodes)
      (hafter : after.Normalized) (hcap : s.timers.capacity < s.timers.size + 1)
      (halloc : alloc = false) :
      EffectBy add s (.timerAdd t after repeats callback clock alloc)
        (((s.setTimer t (some { τ with after, repeats, callback })).expiryAsserted after
          clock).writeTimeout (.timer t) (add (s.loopNow clock) after))
  | added {t τ after repeats callback clock alloc capacity} (hτ : s.timer t = some τ)
      (hdel : τ.deleted = false) (hn : .timer t ∉ s.timers.activeNodes)
      (hafter : after.Normalized) (hcap : s.timers.size + 1 ≤ capacity) :
      EffectBy add s (.timerAdd t after repeats callback clock alloc)
        ((((s.setTimer t (some { τ with after, repeats, callback })).expiryAsserted after
          clock).arm (.timer t) after (add (s.loopNow clock) after) capacity).record (.added t))
  | delInvoking {t τ} (hτ : s.timer t = some τ) (hdel : τ.deleted = false)
      (hinv : τ.invokingCallback = true) :
      EffectBy add s (.timerDel t)
        ((s.setTimer t (some { τ with repeats := false })).record (.deleted t))
  | deleted {t τ} (hτ : s.timer t = some τ) (hinv : τ.invokingCallback = false) :
      EffectBy add s (.timerDel t) ((s.erase (.timer t)).record (.deleted t))
  | delRefused {t} : EffectBy add s (.timerDel t) s
  | freeInvoking {t τ} (hτ : s.timer t = some τ) (hdel : τ.deleted = false)
      (hinv : τ.invokingCallback = true) :
      EffectBy add s (.timerFree t)
        ((s.erase (.timer t)).setTimer t (some { τ with repeats := false, deleted := true }))
  | freed {t τ} (hτ : s.timer t = some τ) (hinv : τ.invokingCallback = false) :
      EffectBy add s (.timerFree t) ((s.erase (.timer t)).setTimer t none)
  | tcpAddRefused {e write after clock alloc} (hafter : after.Normalized) :
      EffectBy add s (.tcpTimeoutAdd e write after clock alloc) (s.expiryAsserted after clock)
  | tcpAddFailed {e write after clock alloc} (hn : .tcp e write ∉ s.timers.activeNodes)
      (hafter : after.Normalized) :
      EffectBy add s (.tcpTimeoutAdd e write after clock alloc)
        ((s.expiryAsserted after clock).writeTimeout (.tcp e write)
          (add (s.loopNow clock) after))
  | tcpAdded {e write after clock alloc capacity} (hn : .tcp e write ∉ s.timers.activeNodes)
      (hafter : after.Normalized) (hcap : s.timers.size + 1 ≤ capacity) :
      EffectBy add s (.tcpTimeoutAdd e write after clock alloc)
        ((s.expiryAsserted after clock).arm (.tcp e write) after (add (s.loopNow clock) after)
          capacity)
  | tcpDel {e write} : EffectBy add s (.tcpTimeoutDel e write) (s.erase (.tcp e write))
  | runEnter {clock} (hc : s.control = .idle) :
      EffectBy add s (.runEnter clock)
        { s with now := clock.1, control := .updating, elapsed := 0, arming := fun _ ↦ none }
  | updateTime {clock} (hc : s.control = .updating) :
      EffectBy add s (.updateTime clock) { s.updateTime clock with control := .processing }
  /-- No armed node has expired. -/
  | processed (hc : s.control = .processing)
      (hnone : ∀ n tv, s.timers.armed n = some tv → s.now.key < tv.key) :
      EffectBy add s .processTurn { s with control := .waiting }
  | firedTimer {t τ tv} (hc : s.control = .processing)
      (harmed : s.timers.armed (.timer t) = some tv) (hexp : tv.key ≤ s.now.key)
      (hmin : ∀ n tv', s.timers.armed n = some tv' → tv.key ≤ tv'.key)
      (hτ : s.timer t = some τ) (hdel : τ.deleted = false) :
      EffectBy add s .processTurn
        { (s.fire (.timer t)).setTimer t (some { τ with invokingCallback := true }) with
          control := .timerCallback t }
  | firedTcp {e write tv} (hc : s.control = .processing)
      (harmed : s.timers.armed (.tcp e write) = some tv) (hexp : tv.key ≤ s.now.key)
      (hmin : ∀ n tv', s.timers.armed n = some tv' → tv.key ≤ tv'.key) :
      EffectBy add s .processTurn { s.fire (.tcp e write) with control := .tcpCallback }
  | returnDeleted {t τ clock} (hc : s.control = .timerCallback t) (hτ : s.timer t = some τ)
      (hdel : τ.deleted = true) :
      EffectBy add s (.callbackReturn clock)
        ({ s.setTimer t (some { τ with invokingCallback := false }) with
          control := .processing }.setTimer t none)
  | returned {t τ clock} (hc : s.control = .timerCallback t) (hτ : s.timer t = some τ)
      (hdel : τ.deleted = false) (hre : s.reinserts t τ = false) :
      EffectBy add s (.callbackReturn clock)
        { s.setTimer t (some { τ with invokingCallback := false }) with control := .processing }
  | reinserted {t τ clock} (hc : s.control = .timerCallback t) (hτ : s.timer t = some τ)
      (hdel : τ.deleted = false) (hrep : τ.repeats = true)
      (hn : .timer t ∉ s.timers.activeNodes) (hre : s.reinserts t τ = true) :
      EffectBy add s (.callbackReturn clock)
        (({ s.setTimer t (some { τ with invokingCallback := false }) with
            control := .processing }.expiryAsserted τ.after clock).arm (.timer t) τ.after
          (add (s.loopNow clock) τ.after) s.timers.capacity)
  | tcpReturn {clock} (hc : s.control = .tcpCallback) :
      EffectBy add s (.callbackReturn clock) { s with control := .processing }
  | poll (hc : s.control = .waiting) :
      EffectBy add s .poll
        { s.assert (s.timers.timersTimeoutAsserts s.now) with
          timeout := s.timers.timersTimeout s.now s.timeout
          control := .polling }
  | nextIteration (hc : s.control = .polling) :
      EffectBy add s .nextIteration { s with control := .updating }
  | runExit (hc : s.control = .polling) : EffectBy add s .runExit { s with control := .idle }

abbrev Effect (s : TimerLoop) (a : Action) (s' : TimerLoop) : Prop := EffectBy timeAdd s a s'

variable {s s' : TimerLoop} {t : ℕ} {τ : Timer} {n : NodeRef} {after expires : Timeval}
  {clock : Timeval.Reading} {alloc b : Bool} {capacity : ℕ} {add : Timeval → Timeval → Timeval}

/-! ## The primitive updates

A step is made of few updates of the state: a timer is written, a node is armed or erased, a timeout
is written into an inactive node, an assertion is counted. Each has a lemma for what it does to the
armed nodes and one for the invariant. -/

section Fields

variable (s t τ n after expires capacity b)

@[simp] theorem assert_timers : (s.assert b).timers = s.timers := rfl

@[simp] theorem assert_timer : (s.assert b).timer = s.timer := rfl

@[simp] theorem assert_control : (s.assert b).control = s.control := rfl

@[simp] theorem assert_now : (s.assert b).now = s.now := rfl

@[simp] theorem assert_log : (s.assert b).log = s.log := rfl

@[simp] theorem assert_arming : (s.assert b).arming = s.arming := rfl

@[simp] theorem assert_elapsed : (s.assert b).elapsed = s.elapsed := rfl

@[simp] theorem assert_true : s.assert true = s := rfl

@[simp] theorem erase_timer : (s.erase n).timer = s.timer := rfl

@[simp] theorem erase_control : (s.erase n).control = s.control := rfl

@[simp] theorem erase_now : (s.erase n).now = s.now := rfl

@[simp] theorem erase_log : (s.erase n).log = s.log := rfl

@[simp] theorem erase_elapsed : (s.erase n).elapsed = s.elapsed := rfl

@[simp] theorem erase_assertFailures : (s.erase n).assertFailures = s.assertFailures := rfl

@[simp] theorem record_timers (o : TimerObs) : (s.record o).timers = s.timers := rfl

@[simp] theorem record_timer (o : TimerObs) : (s.record o).timer = s.timer := rfl

@[simp] theorem record_control (o : TimerObs) : (s.record o).control = s.control := rfl

@[simp] theorem record_now (o : TimerObs) : (s.record o).now = s.now := rfl

@[simp] theorem record_log (o : TimerObs) : (s.record o).log = o :: s.log := rfl

@[simp] theorem record_arming (o : TimerObs) : (s.record o).arming = s.arming := rfl

@[simp] theorem record_elapsed (o : TimerObs) : (s.record o).elapsed = s.elapsed := rfl

@[simp] theorem fire_timers : (s.fire n).timers = (s.erase n).timers := rfl

@[simp] theorem fire_timer : (s.fire n).timer = s.timer := rfl

@[simp] theorem fire_control : (s.fire n).control = s.control := rfl

@[simp] theorem fire_now : (s.fire n).now = s.now := rfl

@[simp] theorem fire_log : (s.fire n).log = .fired n :: s.log := rfl

@[simp] theorem fire_elapsed : (s.fire n).elapsed = s.elapsed := rfl

@[simp] theorem fire_arming : (s.fire n).arming = Function.update s.arming n none := rfl

@[simp] theorem setTimer_timers (o : Option Timer) : (s.setTimer t o).timers = s.timers := rfl

@[simp] theorem setTimer_control (o : Option Timer) : (s.setTimer t o).control = s.control := rfl

@[simp] theorem setTimer_now (o : Option Timer) : (s.setTimer t o).now = s.now := rfl

@[simp] theorem setTimer_log (o : Option Timer) : (s.setTimer t o).log = s.log := rfl

@[simp] theorem setTimer_arming (o : Option Timer) : (s.setTimer t o).arming = s.arming := rfl

@[simp] theorem setTimer_elapsed (o : Option Timer) : (s.setTimer t o).elapsed = s.elapsed := rfl

@[simp] theorem setTimer_timer (o : Option Timer) :
    (s.setTimer t o).timer = Function.update s.timer t o := rfl

@[simp] theorem arm_timer : (s.arm n after expires capacity).timer = s.timer := rfl

@[simp] theorem arm_control : (s.arm n after expires capacity).control = s.control := rfl

@[simp] theorem arm_now : (s.arm n after expires capacity).now = s.now := rfl

@[simp] theorem arm_log : (s.arm n after expires capacity).log = s.log := rfl

@[simp] theorem arm_elapsed : (s.arm n after expires capacity).elapsed = s.elapsed := rfl

@[simp] theorem writeTimeout_timer : (s.writeTimeout n expires).timer = s.timer := rfl

@[simp] theorem writeTimeout_control : (s.writeTimeout n expires).control = s.control := rfl

@[simp] theorem writeTimeout_now : (s.writeTimeout n expires).now = s.now := rfl

@[simp] theorem writeTimeout_log : (s.writeTimeout n expires).log = s.log := rfl

end Fields

/-! ## The calls -/

theorem nodeAddBy_cases (add : Timeval → Timeval → Timeval) (s : TimerLoop) (n : NodeRef)
    (after : Timeval) (clock : Timeval.Reading)
    (alloc : Bool) :
    (n ∈ s.timers.activeNodes ∧
        s.nodeAddBy add n after clock alloc = (s.expiryAsserted after clock, .fail)) ∨
      (n ∉ s.timers.activeNodes ∧ s.timers.capacity < s.timers.size + 1 ∧ alloc = false ∧
        s.nodeAddBy add n after clock alloc =
          ((s.expiryAsserted after clock).writeTimeout n (add (s.loopNow clock) after),
            .outOfMemory)) ∨
      (n ∉ s.timers.activeNodes ∧ ∃ capacity, s.timers.size + 1 ≤ capacity ∧
        s.nodeAddBy add n after clock alloc =
          ((s.expiryAsserted after clock).arm n after (add (s.loopNow clock) after) capacity,
            .success)) := by
  unfold nodeAddBy
  dsimp only
  rcases timerNodeAdd_cases (s.assert (timeAddAsserts (s.loopNow clock) after)).timers n
    (add (s.loopNow clock) after) alloc with
    ⟨hn, heq⟩ | ⟨hn, hcap, halloc, heq⟩ | ⟨hn, capacity, hle, heq⟩
  · exact Or.inl ⟨hn, by rw [heq]; rfl⟩
  · exact Or.inr (Or.inl ⟨hn, hcap, halloc, by rw [heq]; rfl⟩)
  · exact Or.inr (Or.inr ⟨hn, capacity, hle, by rw [heq]; rfl⟩)

theorem timerReturnBy_cases (add : Timeval → Timeval → Timeval) (s : TimerLoop) (t : ℕ) (τ : Timer)
    (clock : Timeval.Reading) :
    let s₁ := { s.setTimer t (some { τ with invokingCallback := false }) with
      control := .processing }
    (τ.deleted = true ∧ s.timerReturnBy add t τ clock = s₁.setTimer t none) ∨
      (τ.deleted = false ∧ s.reinserts t τ = false ∧ s.timerReturnBy add t τ clock = s₁) ∨
      (τ.deleted = false ∧ τ.repeats = true ∧ .timer t ∉ s.timers.activeNodes ∧
        s.reinserts t τ = true ∧
        s.timerReturnBy add t τ clock =
          (s₁.expiryAsserted τ.after clock).arm (.timer t) τ.after
            (add (s.loopNow clock) τ.after) s.timers.capacity) := by
  intro s₁
  unfold timerReturnBy
  by_cases hdel : τ.deleted = true
  · exact Or.inl ⟨hdel, by rw [if_pos hdel]⟩
  · rw [if_neg hdel]
    replace hdel : τ.deleted = false := Bool.eq_false_iff.mpr hdel
    by_cases hre : s.reinserts t τ = true
    · have hparts := hre
      rw [reinserts, Bool.and_eq_true, Bool.and_eq_true, Bool.not_eq_true',
        Bool.not_eq_true'] at hparts
      obtain ⟨⟨-, hrep⟩, hact⟩ := hparts
      refine Or.inr (Or.inr ⟨hdel, hrep, ?_, hre, by rw [if_pos hre]; rfl⟩)
      rw [mem_activeNodes, hact]
      exact Bool.false_ne_true
    · exact Or.inr (Or.inl ⟨hdel, Bool.eq_false_iff.mpr hre, by rw [if_neg hre]⟩)

/-! ## The invariant -/

structure Inv (s : TimerLoop) : Prop where
  heap : s.timers.Invariant
  proper : ∀ n tv, s.timers.armed n = some tv → tv.Proper
  now : s.now.Normalized
  after : ∀ t τ, s.timer t = some τ → τ.after.Normalized
  /-- An armed timer event has not been freed. -/
  live : ∀ t tv, s.timers.armed (.timer t) = some tv → ∃ τ, s.timer t = some τ ∧ τ.deleted = false
  invoking : ∀ t, s.control = .timerCallback t ↔
    ∃ τ, s.timer t = some τ ∧ τ.invokingCallback = true

theorem init_inv : init.Inv where
  heap := timersInit_invariant
  proper n tv h := by cases h
  now := by decide
  after t τ h := by cases h
  live t tv h := by cases h
  invoking t := by
    constructor
    · intro h
      cases h
    · rintro ⟨τ, h, -⟩
      cases h

theorem Inv.congr (hs : s.Inv) (htimers : s'.timers = s.timers) (htimer : s'.timer = s.timer)
    (hcontrol : s'.control = s.control) (hnow : s'.now = s.now) : s'.Inv := by
  refine ⟨?_, ?_, ?_, ?_, ?_, ?_⟩
  · rw [htimers]
    exact hs.heap
  · rw [htimers]
    exact hs.proper
  · rw [hnow]
    exact hs.now
  · rw [htimer]
    exact hs.after
  · rw [htimers, htimer]
    exact hs.live
  · rw [hcontrol, htimer]
    exact hs.invoking

theorem Inv.record (hs : s.Inv) (o : TimerObs) : (s.record o).Inv := hs.congr rfl rfl rfl rfl

theorem Inv.setControl (hs : s.Inv) (hfrom : ∀ t, s.control ≠ .timerCallback t) (c : Control)
    (hto : ∀ t, c ≠ .timerCallback t) : Inv { s with control := c } where
  heap := hs.heap
  proper := hs.proper
  now := hs.now
  after := hs.after
  live := hs.live
  invoking t := by
    rw [iff_false_left (hto t), ← hs.invoking t]
    exact hfrom t

theorem Inv.setNow (hs : s.Inv) (clock : Timeval.Reading) : Inv { s with now := clock.1 } :=
  ⟨hs.heap, hs.proper, clock.2, hs.after, hs.live, hs.invoking⟩

theorem armed_erase (hs : s.Inv) (n : NodeRef) :
    (s.erase n).timers.armed = Function.update s.timers.armed n none :=
  armed_minHeapErase hs.heap n

theorem Inv.erase (hs : s.Inv) (n : NodeRef) : (s.erase n).Inv := by
  have harmed : ∀ m tv, (s.erase n).timers.armed m = some tv → s.timers.armed m = some tv := by
    intro m tv
    rw [armed_erase hs, Function.update_apply]
    split_ifs
    · exact fun h ↦ absurd h (by simp)
    · exact id
  exact ⟨minHeapErase_invariant hs.heap n, fun m tv h ↦ hs.proper m tv (harmed m tv h), hs.now,
    hs.after, fun t tv h ↦ hs.live t tv (harmed _ tv h), hs.invoking⟩

theorem Inv.writeTimeout (hs : s.Inv) (hn : n ∉ s.timers.activeNodes) (expires : Timeval) :
    (s.writeTimeout n expires).Inv := by
  have harmed : (s.writeTimeout n expires).timers.armed = s.timers.armed := armed_setTimeout hn _
  refine ⟨(hs.heap.setTimeout hn expires).1, ?_, hs.now, hs.after, ?_, hs.invoking⟩
  · rw [harmed]
    exact hs.proper
  · rw [harmed]
    exact hs.live

theorem armed_arm (hs : s.Inv) (hn : n ∉ s.timers.activeNodes) :
    (s.arm n after expires capacity).timers.armed =
      Function.update s.timers.armed n (some expires) :=
  armed_pushLast hs.heap hn expires capacity

theorem Inv.arm (hs : s.Inv) (hn : n ∉ s.timers.activeNodes) (hexpires : expires.Proper)
    (hlive : ∀ t, n = .timer t → ∃ τ, s.timer t = some τ ∧ τ.deleted = false) :
    (s.arm n after expires capacity).Inv where
  heap := (timerNodeAdd_pushed hs.heap hn expires capacity).invariant
  proper m tv h := by
    rw [armed_arm hs hn, Function.update_apply] at h
    split_ifs at h
    · obtain rfl := Option.some.inj h
      exact hexpires
    · exact hs.proper m tv h
  now := hs.now
  after := hs.after
  live t tv h := by
    rw [armed_arm hs hn, Function.update_apply] at h
    split_ifs at h with heq
    · exact hlive t heq.symm
    · exact hs.live t tv h
  invoking := hs.invoking

/-- The fields of a timer event are written; the event stays as live as it was. -/
theorem Inv.setTimer (hs : s.Inv) (hτ : s.timer t = some τ) (τ' : Timer)
    (hafter : τ'.after.Normalized)
    (hinvoking : τ'.invokingCallback = τ.invokingCallback)
    (hdeleted : τ'.deleted = τ.deleted ∨ .timer t ∉ s.timers.activeNodes) :
    (s.setTimer t (some τ')).Inv where
  heap := hs.heap
  proper := hs.proper
  now := hs.now
  after u σ h := by
    rw [setTimer_timer, Function.update_apply] at h
    split_ifs at h
    · obtain rfl := Option.some.inj h
      exact hafter
    · exact hs.after u σ h
  live u tv h := by
    obtain ⟨σ, hσ, hdel⟩ := hs.live u tv h
    by_cases heq : u = t
    · subst heq
      rw [hτ] at hσ
      obtain rfl := Option.some.inj hσ
      refine ⟨τ', Function.update_self .., ?_⟩
      rcases hdeleted with hd | hn
      · rw [hd, hdel]
      · rw [setTimer_timers, armed_eq_none_iff.mpr hn] at h
        cases h
    · exact ⟨σ, by rw [setTimer_timer, Function.update_of_ne heq, hσ], hdel⟩
  invoking u := by
    rw [setTimer_control, hs.invoking u]
    by_cases heq : u = t
    · subst heq
      simp [hτ, hinvoking]
    · simp [heq]

theorem Inv.release (hs : s.Inv) (hcontrol : s.control ≠ .timerCallback t)
    (hn : .timer t ∉ s.timers.activeNodes) : (s.setTimer t none).Inv where
  heap := hs.heap
  proper := hs.proper
  now := hs.now
  after u σ h := by
    rw [setTimer_timer, Function.update_apply] at h
    split_ifs at h
    exact hs.after u σ h
  live u tv h := by
    obtain ⟨σ, hσ, hdel⟩ := hs.live u tv h
    have hne : u ≠ t := by
      rintro rfl
      rw [setTimer_timers, armed_eq_none_iff.mpr hn] at h
      cases h
    exact ⟨σ, by rw [setTimer_timer, Function.update_of_ne hne, hσ], hdel⟩
  invoking u := by
    rw [setTimer_control]
    by_cases heq : u = t
    · subst heq
      simp [hcontrol]
    · simp [heq, hs.invoking u]

/-! ## Every step has one of the outcomes -/

theorem liveTimer_eq_some_iff :
    s.liveTimer t = some τ ↔ s.timer t = some τ ∧ τ.deleted = false := by
  rw [liveTimer, Option.filter_eq_some_iff, Bool.not_eq_true']

theorem processTurn_effect (hs : s.Inv) (hc : s.control = .processing) :
    EffectBy add s .processTurn s.processTurn := by
  unfold processTurn
  by_cases hsize : s.timers.size = 0
  · rw [if_pos hsize]
    refine EffectBy.processed hc fun n tv h ↦ ?_
    rw [armed_of_size_eq_zero hs.heap hsize] at h
    cases h
  rw [if_neg hsize]
  have hroot := armed_root hs.heap hsize
  have hmin : ∀ n tv, s.timers.armed n = some tv →
      (s.timers.node (s.timers.events 0)).timeout.key ≤ tv.key :=
    fun n tv h ↦ root_le_armed hs.heap h
  dsimp only
  by_cases hgt : timeCmp (s.timers.node (s.timers.events 0)).timeout s.now > 0
  · rw [if_pos hgt]
    exact EffectBy.processed hc fun n tv h ↦ (timeCmp_pos_iff.mp hgt).trans_le (hmin n tv h)
  rw [if_neg hgt]
  have hexp : (s.timers.node (s.timers.events 0)).timeout.key ≤ s.now.key :=
    timeCmp_nonpos_iff.mp (not_lt.mp hgt)
  generalize (s.timers.node (s.timers.events 0)).timeout = tv at hroot hmin hexp
  cases htop : s.timers.events 0 with
  | timer t =>
    rw [htop] at hroot
    obtain ⟨τ, hτ, hdel⟩ := hs.live t tv hroot
    dsimp only
    rw [invokeTimer, fire_timer, hτ]
    exact EffectBy.firedTimer hc hroot hexp hmin hτ hdel
  | tcp e write =>
    rw [htop] at hroot
    exact EffectBy.firedTcp hc hroot hexp hmin

theorem timerAdd_effect (hτ : s.timer t = some τ) (hdel : τ.deleted = false) (repeats : Bool)
    (callback : ℕ) :
    EffectBy add s (.timerAdd t after repeats callback clock alloc)
      (s.timerAddBy add t τ after repeats callback clock alloc).1 := by
  unfold timerAddBy
  split_ifs with hact hinvalid
  · exact EffectBy.addRefused
  · exact EffectBy.addRefused
  · have hafter : after.Normalized :=
      invalidDelay_eq_false_iff.mp (Bool.eq_false_iff.mpr hinvalid)
    dsimp only
    rcases nodeAddBy_cases add (s.setTimer t (some { τ with after, repeats, callback }))
      (.timer t) after
      clock alloc with ⟨hn, -⟩ | ⟨hn, hcap, halloc, heq⟩ | ⟨hn, capacity, hcap, heq⟩
    · exact absurd (mem_activeNodes.mp hn) hact
    · rw [heq]
      exact EffectBy.addFailed hτ hdel hn hafter hcap halloc
    · rw [heq]
      exact EffectBy.added hτ hdel hn hafter hcap

theorem timerDel_effect (hτ : s.timer t = some τ) (hdel : τ.deleted = false) :
    EffectBy add s (.timerDel t) (s.timerDel t τ).1 := by
  unfold timerDel
  split_ifs with hinv hact
  · exact EffectBy.delInvoking hτ hdel hinv
  · exact EffectBy.deleted hτ (Bool.eq_false_iff.mpr hinv)
  · exact EffectBy.delRefused

theorem timerFree_effect (hτ : s.timer t = some τ) (hdel : τ.deleted = false) :
    EffectBy add s (.timerFree t) (s.timerFree t τ) := by
  unfold timerFree
  split_ifs with hinv
  · exact EffectBy.freeInvoking hτ hdel hinv
  · exact EffectBy.freed hτ (Bool.eq_false_iff.mpr hinv)

theorem tcpTimeoutAdd_effect (hafter : after.Normalized) (e : ℕ) (write : Bool) :
    EffectBy add s (.tcpTimeoutAdd e write after clock alloc)
      (s.nodeAddBy add (.tcp e write) after clock alloc).1 := by
  rcases nodeAddBy_cases add s (.tcp e write) after clock alloc with
    ⟨-, heq⟩ | ⟨hn, -, -, heq⟩ | ⟨hn, capacity, hcap, heq⟩
  · rw [heq]
    exact EffectBy.tcpAddRefused hafter
  · rw [heq]
    exact EffectBy.tcpAddFailed hn hafter
  · rw [heq]
    exact EffectBy.tcpAdded hn hafter hcap

theorem timerReturn_effect (hc : s.control = .timerCallback t) (hτ : s.timer t = some τ) :
    EffectBy add s (.callbackReturn clock) (s.timerReturnBy add t τ clock) := by
  rcases timerReturnBy_cases add s t τ clock with
    ⟨hdel, heq⟩ | ⟨hdel, hre, heq⟩ | ⟨hdel, hrep, hn, hre, heq⟩
  · rw [heq]
    exact EffectBy.returnDeleted hc hτ hdel
  · rw [heq]
    exact EffectBy.returned hc hτ hdel hre
  · rw [heq]
    exact EffectBy.reinserted hc hτ hdel hrep hn hre

/-- **Inversion.** Every step from a state that satisfies the invariant has one of the outcomes. -/
theorem stepBy_effect (hs : s.Inv) {a : Action} (h : stepBy add s a = some s') :
    EffectBy add s a s' := by
  cases a with
  | timerNew t =>
    simp only [stepBy, Option.ite_none_right_eq_some, Option.some.injEq] at h
    obtain ⟨⟨-, hnone⟩, rfl⟩ := h
    exact EffectBy.timerNew hnone
  | timerAdd t after repeats callback clock alloc =>
    simp only [stepBy, Option.ite_none_right_eq_some, Option.map_eq_some_iff] at h
    obtain ⟨-, τ, hτ, rfl⟩ := h
    obtain ⟨hτ, hdel⟩ := liveTimer_eq_some_iff.mp hτ
    exact timerAdd_effect hτ hdel repeats callback
  | timerDel t =>
    simp only [stepBy, Option.ite_none_right_eq_some, Option.map_eq_some_iff] at h
    obtain ⟨-, τ, hτ, rfl⟩ := h
    obtain ⟨hτ, hdel⟩ := liveTimer_eq_some_iff.mp hτ
    exact timerDel_effect hτ hdel
  | timerFree t =>
    simp only [stepBy, Option.ite_none_right_eq_some, Option.map_eq_some_iff] at h
    obtain ⟨-, τ, hτ, rfl⟩ := h
    obtain ⟨hτ, hdel⟩ := liveTimer_eq_some_iff.mp hτ
    exact timerFree_effect hτ hdel
  | tcpTimeoutAdd e write after clock alloc =>
    simp only [stepBy, Option.ite_none_right_eq_some, Option.some.injEq] at h
    obtain ⟨⟨-, hafter⟩, rfl⟩ := h
    exact tcpTimeoutAdd_effect (invalidDelay_eq_false_iff.mp hafter) e write
  | tcpTimeoutDel e write =>
    simp only [stepBy, Option.ite_none_right_eq_some, Option.some.injEq] at h
    obtain ⟨-, rfl⟩ := h
    exact EffectBy.tcpDel
  | runEnter clock =>
    simp only [stepBy, Option.ite_none_right_eq_some, Option.some.injEq] at h
    obtain ⟨hc, rfl⟩ := h
    exact EffectBy.runEnter hc
  | updateTime clock =>
    simp only [stepBy, Option.ite_none_right_eq_some, Option.some.injEq] at h
    obtain ⟨hc, rfl⟩ := h
    exact EffectBy.updateTime hc
  | processTurn =>
    simp only [stepBy, Option.ite_none_right_eq_some, Option.some.injEq] at h
    obtain ⟨hc, rfl⟩ := h
    exact processTurn_effect hs hc
  | callbackReturn clock =>
    simp only [stepBy] at h
    split at h
    · next t hc =>
      obtain ⟨τ, hτ, rfl⟩ := Option.map_eq_some_iff.mp h
      exact timerReturn_effect hc hτ
    · next hc =>
      obtain rfl := Option.some.inj h
      exact EffectBy.tcpReturn hc
    · cases h
  | poll =>
    simp only [stepBy, Option.ite_none_right_eq_some, Option.some.injEq] at h
    obtain ⟨hc, rfl⟩ := h
    exact EffectBy.poll hc
  | nextIteration =>
    simp only [stepBy, Option.ite_none_right_eq_some, Option.some.injEq] at h
    obtain ⟨hc, rfl⟩ := h
    exact EffectBy.nextIteration hc
  | runExit =>
    simp only [stepBy, Option.ite_none_right_eq_some, Option.some.injEq] at h
    obtain ⟨hc, rfl⟩ := h
    exact EffectBy.runExit hc

theorem step_effect (hs : s.Inv) {a : Action} (h : step s a = some s') : Effect s a s' :=
  stepBy_effect hs h

theorem step64_effect (hs : s.Inv) {a : Action} (h : step64 s a = some s') :
    EffectBy timeAdd64 s a s' := stepBy_effect hs h

/-- The node that a turn of `timers_process` fires was armed, and has expired. -/
theorem EffectBy.armed_of_fired (hE : EffectBy add s .processTurn s')
    (hlog : s'.log = .fired n :: s.log) :
    ∃ tv, s.timers.armed n = some tv ∧ tv.key ≤ s.now.key := by
  cases hE with
  | processed hc hnone => exact absurd hlog.symm (List.cons_ne_self _ _)
  | firedTimer hc harmed hexp | firedTcp hc harmed hexp =>
    obtain rfl := TimerObs.fired.inj (List.cons.inj hlog).1
    exact ⟨_, harmed, hexp⟩

/-! ## The invariant is kept -/

theorem Inv.expiryAsserted (hs : s.Inv) : (s.expiryAsserted after clock).Inv :=
  hs.congr rfl rfl rfl rfl

theorem Inv.loopNow_normalized (hs : s.Inv) (clock : Timeval.Reading) :
    (s.loopNow clock).Normalized := by
  unfold loopNow
  split_ifs
  · exact hs.now
  · exact clock.2

theorem Inv.loopNow_proper (hs : s.Inv) (clock : Timeval.Reading) : (s.loopNow clock).Proper :=
  (hs.loopNow_normalized clock).proper

/-- An expiry computed from the cached clock and an accepted delay is proper. -/
theorem Inv.expires_proper (hs : s.Inv) (hafter : after.Normalized) :
    (timeAdd (s.loopNow clock) after).Proper :=
  (hs.loopNow_proper clock).timeAdd hafter.proper

theorem Inv.setInvoking (hs : s.Inv) (hτ : s.timer t = some τ) {v : Bool} {c : Control}
    (hself : c = .timerCallback t ↔ v = true)
    (hother : ∀ u ≠ t, c ≠ .timerCallback u ∧ s.control ≠ .timerCallback u) :
    Inv { s.setTimer t (some { τ with invokingCallback := v }) with control := c } where
  heap := hs.heap
  proper := hs.proper
  now := hs.now
  after u σ h := by
    change Function.update s.timer t _ u = some σ at h
    rw [Function.update_apply] at h
    split_ifs at h
    · obtain rfl := Option.some.inj h
      exact hs.after t τ hτ
    · exact hs.after u σ h
  live u tv h := by
    obtain ⟨σ, hσ, hdel⟩ := hs.live u tv h
    by_cases heq : u = t
    · subst heq
      rw [hτ] at hσ
      obtain rfl := Option.some.inj hσ
      exact ⟨_, Function.update_self .., hdel⟩
    · exact ⟨σ, (Function.update_of_ne heq ..).trans hσ, hdel⟩
  invoking u := by
    change c = .timerCallback u ↔
      ∃ σ, Function.update s.timer t _ u = some σ ∧ σ.invokingCallback = true
    by_cases heq : u = t
    · subst heq
      simp [hself]
    · obtain ⟨hc, hcontrol⟩ := hother u heq
      rw [iff_false_left hc, Function.update_of_ne heq, ← hs.invoking u]
      exact hcontrol

theorem processing_ne (hc : s.control = .processing) (u : ℕ) : s.control ≠ .timerCallback u := by
  rw [hc]
  exact nofun

theorem updateTime_frame (s : TimerLoop) (tv : Timeval.Reading) :
    (s.updateTime tv).control = s.control ∧ (s.updateTime tv).timer = s.timer ∧
      (s.updateTime tv).log = s.log ∧ (s.updateTime tv).arming = s.arming := by
  unfold TimerLoop.updateTime
  dsimp only
  split_ifs <;> exact ⟨rfl, rfl, rfl, rfl⟩

theorem Inv.leaveCallback (hs : s.Inv) (hc : s.control = .timerCallback t)
    (hτ : s.timer t = some τ) :
    Inv { s.setTimer t (some { τ with invokingCallback := false }) with
      control := .processing } := by
  refine hs.setInvoking hτ (by simp) fun u hu ↦ ⟨nofun, ?_⟩
  rw [hc]
  exact fun heq ↦ hu (Control.timerCallback.inj heq).symm

theorem Inv.not_mem_of_deleted (hs : s.Inv) (hτ : s.timer t = some τ) (hdel : τ.deleted = true) :
    .timer t ∉ s.timers.activeNodes := by
  rw [← armed_eq_none_iff, Option.eq_none_iff_forall_ne_some]
  intro tv h
  obtain ⟨τ', hτ', hdel'⟩ := hs.live t tv h
  rw [hτ] at hτ'
  obtain rfl := Option.some.inj hτ'
  rw [hdel] at hdel'
  cases hdel'

/-- What `__update_time` makes of an expiry. -/
def shifted (now tv expires : Timeval) : Timeval :=
  if timeCmp tv now < 0 then timeSub expires (timeSub now tv) else expires

theorem shifted_proper {now tv expires : Timeval} (hnow : now.Proper) (htv : tv.Proper)
    (h : expires.Proper) : (shifted now tv expires).Proper := by
  unfold shifted
  split_ifs
  · exact h.timeSub (hnow.timeSub htv)
  · exact h

theorem micros_shifted {now tv : Timeval} (hnow : now.Proper) (htv : tv.Proper)
    (expires : Timeval) :
    (shifted now tv expires).micros = expires.micros - max 0 (now.micros - tv.micros) := by
  have hiff : timeCmp tv now < 0 ↔ tv.micros < now.micros := by
    rw [timeCmp_neg_iff, Timeval.key_lt_iff_micros htv hnow]
  unfold shifted
  split_ifs with hlt
  · rw [hiff] at hlt
    rw [micros_timeSub, micros_timeSub, max_eq_right (by omega)]
  · rw [hiff] at hlt
    rw [max_eq_left (by omega), sub_zero]

theorem armed_updateTime (hs : s.Inv) (tv : Timeval.Reading) (n : NodeRef) :
    (s.updateTime tv).timers.armed n = (s.timers.armed n).map (shifted s.now tv.1) := by
  unfold TimerLoop.updateTime shifted
  dsimp only
  split_ifs with hlt
  · exact armed_timersAdjustBackward hs.heap _ n
  · exact Option.map_id'.symm

theorem Inv.updateTime (hs : s.Inv) (tv : Timeval.Reading) : (s.updateTime tv).Inv := by
  obtain ⟨hcontrol, htimer, -, -⟩ := updateTime_frame s tv
  have hback : ∀ n e, (s.updateTime tv).timers.armed n = some e →
      ∃ e₀, s.timers.armed n = some e₀ ∧ shifted s.now tv.1 e₀ = e := by
    intro n e h
    rw [armed_updateTime hs] at h
    exact Option.map_eq_some_iff.mp h
  refine ⟨?_, ?_, tv.2, htimer ▸ hs.after, ?_, ?_⟩
  · unfold TimerLoop.updateTime
    dsimp only
    split_ifs
    · exact timersAdjustBackward_invariant hs.heap (hs.now.proper.timeSub tv.2.proper) hs.proper
    · exact hs.heap
  · intro n e h
    obtain ⟨e₀, h₀, rfl⟩ := hback n e h
    exact shifted_proper hs.now.proper tv.2.proper (hs.proper n e₀ h₀)
  · intro t e h
    obtain ⟨e₀, h₀, -⟩ := hback (.timer t) e h
    rw [htimer]
    exact hs.live t e₀ h₀
  · rw [hcontrol, htimer]
    exact hs.invoking

theorem Inv.not_mem_of_none (hs : s.Inv) (hnone : s.timer t = none) :
    .timer t ∉ s.timers.activeNodes := by
  rw [← armed_eq_none_iff, Option.eq_none_iff_forall_ne_some]
  intro tv h
  obtain ⟨τ, hτ, -⟩ := hs.live t tv h
  rw [hnone] at hτ
  cases hτ

theorem Inv.timerNew (hs : s.Inv) (hnone : s.timer t = none) : (s.timerNew t).Inv := by
  have hn : .timer t ∉ s.timers.activeNodes := hs.not_mem_of_none hnone
  have harmed : (s.timerNew t).timers.armed = s.timers.armed := armed_timerNodeInit hs.heap hn
  refine ⟨(hs.heap.timerNodeInit hn).1, ?_, hs.now, ?_, ?_, ?_⟩
  · rw [harmed]
    exact hs.proper
  · intro u σ h
    change Function.update s.timer t _ u = some σ at h
    rw [Function.update_apply] at h
    split_ifs at h
    · obtain rfl := Option.some.inj h
      decide
    · exact hs.after u σ h
  · intro u tv h
    rw [harmed] at h
    obtain ⟨σ, hσ, hdel⟩ := hs.live u tv h
    have hne : u ≠ t := by
      rintro rfl
      rw [hnone] at hσ
      cases hσ
    exact ⟨σ, (Function.update_of_ne hne ..).trans hσ, hdel⟩
  · intro u
    change s.control = .timerCallback u ↔
      ∃ σ, Function.update s.timer t _ u = some σ ∧ σ.invokingCallback = true
    rw [hs.invoking u]
    by_cases heq : u = t
    · subst heq
      simp [hnone]
    · rw [Function.update_of_ne heq]

theorem not_mem_erase (hs : s.Inv) (n : NodeRef) : n ∉ (s.erase n).timers.activeNodes := by
  rw [← armed_eq_none_iff, armed_erase hs, Function.update_self]

/-- **Preservation.** Every outcome of a step keeps the invariant. -/
theorem EffectBy.inv (hadd : ∀ {x y : Timeval}, x.Proper → y.Proper → (add x y).Proper)
    (hs : s.Inv) {a : Action} (h : EffectBy add s a s') : s'.Inv := by
  cases h with
  | timerNew hnone => exact hs.timerNew hnone
  | addRefused | delRefused => exact hs
  | @addFailed t τ after repeats callback clock alloc hτ hdel hn hafter hcap halloc =>
    -- the fields are stored although the node could not be added
    have h₁ := hs.setTimer hτ { τ with after, repeats, callback } hafter rfl (Or.inl rfl)
    exact h₁.expiryAsserted.writeTimeout hn _
  | @added t τ after repeats callback clock alloc capacity hτ hdel hn hafter hcap =>
    have h₁ := hs.setTimer hτ { τ with after, repeats, callback } hafter rfl (Or.inl rfl)
    refine (h₁.expiryAsserted.arm hn (hadd (hs.loopNow_proper _) hafter.proper) ?_).record _
    intro u heq
    cases heq
    exact ⟨_, Function.update_self .., hdel⟩
  | @delInvoking t τ hτ hdel hinv =>
    have h₁ := hs.setTimer hτ { τ with repeats := false } (hs.after t τ hτ) rfl (Or.inl rfl)
    exact h₁.record _
  | deleted hτ hinv => exact (hs.erase _).record _
  | @freeInvoking t τ hτ hdel hinv =>
    exact (hs.erase _).setTimer hτ { τ with repeats := false, deleted := true } (hs.after t τ hτ)
      rfl (Or.inr (not_mem_erase hs _))
  | @freed t τ hτ hinv =>
    -- the memory of a timer is not released while its callback runs
    refine (hs.erase _).release (fun hc ↦ ?_) (not_mem_erase hs _)
    obtain ⟨τ', hτ', hinv'⟩ := (hs.invoking t).mp hc
    rw [hτ] at hτ'
    obtain rfl := Option.some.inj hτ'
    rw [hinv] at hinv'
    cases hinv'
  | tcpAddRefused hafter => exact hs.expiryAsserted
  | tcpAddFailed hn hafter => exact hs.expiryAsserted.writeTimeout hn _
  | tcpAdded hn hafter hcap =>
    refine hs.expiryAsserted.arm hn (hadd (hs.loopNow_proper _) hafter.proper) fun u heq ↦ ?_
    cases heq
  | tcpDel => exact hs.erase _
  | runEnter hc =>
    refine ((hs.setNow _).setControl (fun u ↦ ?_) .updating nofun).congr rfl rfl rfl rfl
    rw [hc]
    exact nofun
  | updateTime hc =>
    refine (hs.updateTime _).setControl (fun u ↦ ?_) _ nofun
    rw [(updateTime_frame s _).1, hc]
    exact nofun
  | processed hc hnone => exact hs.setControl (processing_ne hc) _ nofun
  | firedTimer hc harmed hexp hmin hτ hdel =>
    refine ((hs.erase _).record _).setInvoking hτ (by simp) fun u hu ↦ ⟨?_, processing_ne hc u⟩
    exact fun heq ↦ hu (Control.timerCallback.inj heq).symm
  | firedTcp hc harmed hexp hmin =>
    exact ((hs.erase _).record _).setControl (processing_ne hc) _ nofun
  | returnDeleted hc hτ hdel =>
    refine (hs.leaveCallback hc hτ).release ?_ (hs.not_mem_of_deleted hτ hdel)
    exact processing_ne rfl _
  | returned hc hτ hdel hre => exact hs.leaveCallback hc hτ
  | reinserted hc hτ hdel hrep hn hre =>
    refine (hs.leaveCallback hc hτ).expiryAsserted.arm hn
      (hadd (hs.loopNow_proper _) (hs.after _ _ hτ).proper) ?_
    intro u heq
    cases heq
    exact ⟨_, Function.update_self .., hdel⟩
  | tcpReturn hc | nextIteration hc | runExit hc =>
    refine hs.setControl (fun u ↦ ?_) _ nofun
    rw [hc]
    exact nofun
  | poll hc =>
    refine (hs.setControl (fun u ↦ ?_) .polling nofun).congr rfl rfl rfl rfl
    rw [hc]
    exact nofun

theorem Effect.inv (hs : s.Inv) {a : Action} (h : Effect s a s') : s'.Inv :=
  EffectBy.inv Timeval.Proper.timeAdd hs h

theorem inv_of_step64 (hs : s.Inv) {a : Action} (h : step64 s a = some s') : s'.Inv :=
  (step64_effect hs h).inv Timeval.Proper.timeAdd64 hs

theorem inv_of_reachable {ok : TimerLoop → Action → Prop} (h : Reachable step ok init s) : s.Inv :=
  h.invariant init_inv fun _ _ _ hs _ hstep ↦ (step_effect hs hstep).inv hs

theorem inv_of_reachable64 {ok : TimerLoop → Action → Prop} (h : Reachable step64 ok init s) :
    s.Inv :=
  h.invariant init_inv fun _ _ _ hs _ hstep ↦ inv_of_step64 hs hstep

end TimerLoop

end Nanoev
