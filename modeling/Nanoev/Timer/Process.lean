import Nanoev.Timer.LoopInvariant
import Mathlib.Data.Finset.Card
import Mathlib.Data.Finset.Image

/-!
# One call of `timers_process`

`timers_process` removes the root of the heap and invokes its callback as long as the root has
expired. Between two turns the heap is not the same: the callback may arm, delete and free timers,
and a repeating timer is put back. What makes the loop fire in order all the same is that nothing
can be armed with an expiry before the cached clock, while everything fired has an expiry up to it.

The same bound is what the loop needs to end: a timer that is put back has to expire after the
cached clock. A repeating timer with an interval of zero does not, and neither does one whose
interval makes the new expiry wrap around in 64 bits. A call with such a timer never returns
(`Busy`).

`firings` records the invocations of one call. `InOrder` is kept by calls with arbitrary callbacks,
`Quiet` by those whose callbacks leave the timers alone: these fire no node twice, which bounds the
number of turns. `Quiet` is stated for both additions of time values, since the order of the firings
is a result over the integers and the end of the loop one about the machine.
-/

namespace Nanoev

/-- The loop thread is in `timers_process`, or has just left it. -/
def Control.inProcess : Control → Bool
  | .processing | .timerCallback _ | .tcpCallback | .waiting => true
  | _ => false

/-- The invocation of the callback of a node, with the nodes that are armed at that moment, the node
itself included. -/
structure Firing where
  node : NodeRef
  timeout : Timeval
  armed : NodeRef → Option Timeval

/-- The node has expired, and no other armed node expires earlier. -/
structure Firing.Due (now : Timeval) (f : Firing) : Prop where
  armed : f.armed f.node = some f.timeout
  expired : f.timeout.key ≤ now.key
  first : ∀ n tv, f.armed n = some tv → f.timeout.key ≤ tv.key

/-- The node whose callback an entry of the record is about. -/
def TimerObs.firedNode : TimerObs → Option NodeRef
  | .fired n => some n
  | _ => none

namespace TimerLoop

open TimerMinHeap Transition

def firings (s : TimerLoop) (a : Action) : List Firing :=
  match step s a with
  | none => []
  | some s' =>
    match s'.log with
    | .fired n :: rest =>
      if rest = s.log then [⟨n, (s.timers.node n).timeout, s.timers.armed⟩] else []
    | _ => []

/-- What may happen in a call of `timers_process`: its own turns, and what the callbacks do. -/
def Action.duringProcess : Action → Bool
  | .runEnter _ | .updateTime _ | .poll | .nextIteration | .runExit => false
  | _ => true

def Action.isTurn : Action → Bool
  | .processTurn | .callbackReturn _ => true
  | _ => false

/-- What becomes of a node that is fired at the time `base`: a repeating timer is armed again. -/
def rearmed (add : Timeval → Timeval → Timeval) (s : TimerLoop) (base : Timeval) :
    NodeRef → Option Timeval
  | .timer t =>
    match s.timer t with
    | some τ => if τ.repeats then some (add base τ.after) else none
    | none => none
  | .tcp _ _ => none

/-- The repeating timers that have expired are armed again with an expiry after the cached clock, if
`nanoev_now` reads one of the times in `P`. -/
def RearmsLater (add : Timeval → Timeval → Timeval) (P : Timeval.Reading → Prop) (s : TimerLoop) :
    Prop :=
  ∀ t tv τ clock, P clock → s.timers.armed (.timer t) = some tv → tv.key ≤ s.now.key →
    s.timer t = some τ → τ.repeats = true → s.now.key < (add (s.loopNow clock) τ.after).key

/-- No repeating timer that has expired has an interval of zero, or one that does not fit when it is
added to the loop time. -/
def NoBusyRepeat (clocks : ℕ → Timeval.Reading) (s : TimerLoop) : Prop :=
  ∀ t tv τ, s.timers.armed (.timer t) = some tv → tv.key ≤ s.now.key → s.timer t = some τ →
    τ.repeats = true →
      τ.after ≠ ⟨0, 0⟩ ∧ ∀ k, timeAddFits (s.loopNow (clocks k)) τ.after = true

/-- The seconds of the cached clock and of the intervals are those of 64-bit integers. -/
def InRange (s : TimerLoop) : Prop :=
  s.now.sec < 2 ^ 63 ∧ ∀ t τ, s.timer t = some τ → τ.after.sec < 2 ^ 63

/-- `timers_process` with callbacks that leave the timers alone. A turn invokes one callback; `fuel`
bounds the number of turns and `clocks` is what `nanoev_now` reads in them. -/
def timersProcess (clocks : ℕ → Timeval.Reading) : (fuel : ℕ) → TimerLoop → Option TimerLoop
  | 0, _ => none
  | fuel + 1, s =>
    if s.processTurn.control = .waiting then some s.processTurn
    else (step64 s.processTurn (.callbackReturn (clocks fuel))).bind (timersProcess clocks fuel)

variable {s s₀ s' : TimerLoop} {l : List Firing} {l₀ : List NodeRef} {a : Action} {n : NodeRef}
  {t : ℕ} {τ : Timer} {tv after : Timeval} {clock : Timeval.Reading}
  {add : Timeval → Timeval → Timeval} {P : Timeval.Reading → Prop}

/-! ## What a step records -/

/-- The node that a turn of `timers_process` fires. -/
def firedBy (s s' : TimerLoop) : List NodeRef :=
  match s'.log with
  | .fired n :: rest => if rest = s.log then [n] else []
  | _ => []

theorem firedBy_of_log_eq (hlog : s'.log = s.log) : firedBy s s' = [] := by
  rw [firedBy, hlog]
  split
  · next n rest heq =>
    refine if_neg fun hrest ↦ ?_
    rw [hrest] at heq
    exact List.cons_ne_self _ _ heq.symm
  · rfl

theorem firedBy_of_fired (hlog : s'.log = .fired n :: s.log) : firedBy s s' = [n] := by
  rw [firedBy, hlog]
  exact if_pos rfl

theorem map_firings (h : step s a = some s') : (s.firings a).map Firing.node = firedBy s s' := by
  rw [firings, firedBy, h]
  dsimp only
  split
  · split_ifs <;> rfl
  · rfl

theorem firings_of_log_eq (h : step s a = some s') (hlog : s'.log = s.log) : s.firings a = [] := by
  rw [← List.map_eq_nil_iff (f := Firing.node), map_firings h, firedBy_of_log_eq hlog]

theorem firings_of_fired (h : step s a = some s') (hlog : s'.log = .fired n :: s.log) :
    s.firings a = [⟨n, (s.timers.node n).timeout, s.timers.armed⟩] := by
  rw [firings, h]
  dsimp only
  rw [hlog]
  exact if_pos rfl

theorem firings_of_call {o : TimerObs} (h : step s a = some s') (hlog : s'.log = o :: s.log)
    (ho : ∀ n, o ≠ .fired n) : s.firings a = [] := by
  rw [firings, h]
  dsimp only
  rw [hlog]
  split
  · next n rest heq => exact absurd (List.cons.inj heq).1 (ho n)
  · rfl

/-! ## Expiries -/

/-- The time from which an expiry is computed does not lie before the cached clock. -/
theorem now_le_loopNow (s : TimerLoop) (clock : Timeval.Reading) :
    s.now.micros ≤ (s.loopNow clock).micros := by
  unfold loopNow
  split_ifs with hzero
  · exact le_rfl
  · rw [not_or, not_not, not_not] at hzero
    have := clock.2.micros_nonneg
    rw [Timeval.micros, hzero.1, hzero.2]
    omega

theorem Inv.now_le_expires (hs : s.Inv) (hafter : after.Normalized) (clock : Timeval.Reading) :
    s.now.key ≤ (timeAdd (s.loopNow clock) after).key := by
  rw [Timeval.key_le_iff_micros hs.now.proper (hs.expires_proper hafter), micros_timeAdd]
  have := s.now_le_loopNow clock
  have := hafter.micros_nonneg
  omega

theorem Inv.now_lt_expires (hs : s.Inv) (hafter : after.Normalized) (hne : after ≠ ⟨0, 0⟩)
    (clock : Timeval.Reading) : s.now.key < (timeAdd (s.loopNow clock) after).key := by
  rw [Timeval.key_lt_iff_micros hs.now.proper (hs.expires_proper hafter), micros_timeAdd]
  have hle := s.now_le_loopNow clock
  have hpos : 0 < after.micros := by
    obtain ⟨hsec, husec, -⟩ := hafter
    rw [Timeval.ne_zero_iff] at hne
    rw [Timeval.micros]
    omega
  omega

theorem RearmsLater.now_lt_rearmed (h : s.RearmsLater add P) (hclock : P clock)
    (harmed : s.timers.armed n = some tv) (hdue : tv.key ≤ s.now.key) {tv' : Timeval}
    (hre : s.rearmed add (s.loopNow clock) n = some tv') : s.now.key < tv'.key := by
  cases n with
  | tcp e write => cases hre
  | timer t =>
    rw [rearmed] at hre
    split at hre
    · next τ hτ =>
      obtain ⟨hrep, heq⟩ := Option.ite_none_right_eq_some.mp hre
      obtain rfl := Option.some.inj heq
      exact h t tv τ clock hclock harmed hdue hτ hrep
    · cases hre

/-! ## Arbitrary callbacks -/

/-- The callbacks that have been invoked since the call began. -/
structure InOrder (s₀ : TimerLoop) (x : TimerLoop × List Firing) : Prop where
  inv : x.1.Inv
  now_eq : x.1.now = s₀.now
  control : x.1.control.inProcess = true
  log : x.1.log.filterMap TimerObs.firedNode =
    (x.2.map Firing.node).reverse ++ s₀.log.filterMap TimerObs.firedNode
  due : ∀ f ∈ x.2, f.Due s₀.now
  sorted : x.2.Pairwise fun f g ↦ f.timeout.key ≤ g.timeout.key
  /-- What is armed does not expire before what has been fired. -/
  ahead : ∀ f ∈ x.2, ∀ n tv, x.1.timers.armed n = some tv → f.timeout.key ≤ tv.key
  done : x.1.control = .waiting → ∀ n tv, x.1.timers.armed n = some tv → s₀.now.key < tv.key

theorem InOrder.congr (h : InOrder s₀ (s, l)) (hinv : s'.Inv) (hnow : s'.now = s.now)
    (hcontrol : s'.control.inProcess = true) (hwait : s'.control ≠ .waiting)
    (hlog : s'.log.filterMap TimerObs.firedNode = s.log.filterMap TimerObs.firedNode)
    (harmed : ∀ n tv, s'.timers.armed n = some tv → s.timers.armed n = some tv ∨
    s₀.now.key ≤ tv.key) :
    InOrder s₀ (s', l) := by
  refine ⟨hinv, hnow.trans h.now_eq, hcontrol, hlog.trans h.log, h.due, h.sorted, ?_,
    fun hw ↦ absurd hw hwait⟩
  intro f hf n tv hn
  rcases harmed n tv hn with hn | hle
  · exact h.ahead f hf n tv hn
  · exact (h.due f hf).expired.trans hle

theorem InOrder.fire (h : InOrder s₀ (s, l)) (harmed : s.timers.armed n = some tv)
    (hexp : tv.key ≤ s.now.key) (hmin : ∀ m tv', s.timers.armed m = some tv' → tv.key ≤ tv'.key)
    (hinv : s'.Inv) (hnow : s'.now = s.now) (hcontrol : s'.control.inProcess = true)
    (hwait : s'.control ≠ .waiting) (hlog : s'.log = .fired n :: s.log)
    (harmed' : s'.timers.armed = Function.update s.timers.armed n none) :
    InOrder s₀ (s', l ++ [⟨n, (s.timers.node n).timeout, s.timers.armed⟩]) := by
  obtain ⟨-, htv⟩ := armed_eq_some_iff.mp harmed
  rw [htv]
  have hkeep : ∀ m tv', s'.timers.armed m = some tv' → s.timers.armed m = some tv' := by
    intro m tv' hm
    rw [harmed', Function.update_apply] at hm
    split_ifs at hm
    exact hm
  refine ⟨hinv, hnow.trans h.now_eq, hcontrol, ?_, ?_, ?_, ?_, fun hw ↦ absurd hw hwait⟩
  · rw [List.map_append, List.reverse_append, hlog]
    exact congrArg (n :: ·) h.log
  · intro f hf
    rcases List.mem_append.mp hf with hf | hf
    · exact h.due f hf
    · rw [List.mem_singleton.mp hf]
      exact ⟨harmed, h.now_eq ▸ hexp, hmin⟩
  · refine List.pairwise_append.mpr ⟨h.sorted, List.pairwise_singleton _ _, ?_⟩
    intro f hf g hg
    rw [List.mem_singleton.mp hg]
    exact h.ahead f hf n tv harmed
  · intro f hf m tv' hm
    rcases List.mem_append.mp hf with hf | hf
    · exact h.ahead f hf m tv' (hkeep m tv' hm)
    · rw [List.mem_singleton.mp hf]
      exact hmin m tv' (hkeep m tv' hm)

theorem ne_waiting_of_step (ha : a.duringProcess = true) (h : step s a = some s') :
    s.control ≠ .waiting := by
  intro hw
  cases a <;> simp_all [step, stepBy, inUserCode, Action.duringProcess]

theorem armed_erase_le (hs : s.Inv) {m : NodeRef} (h : (s.erase n).timers.armed m = some tv) :
    s.timers.armed m = some tv := by
  rw [armed_erase hs, Function.update_apply] at h
  split_ifs at h
  exact h

theorem armed_arm_or (hs : s.Inv) (hn : n ∉ s.timers.activeNodes) (delay : Timeval)
    {expires : Timeval} {capacity : ℕ} (hle : s₀.now.key ≤ expires.key) {m : NodeRef}
    (h : (s.arm n delay expires capacity).timers.armed m = some tv) :
    s.timers.armed m = some tv ∨ s₀.now.key ≤ tv.key := by
  rw [armed_arm hs hn, Function.update_apply] at h
  split_ifs at h
  · obtain rfl := Option.some.inj h
    exact Or.inr hle
  · exact Or.inl h

/-- **One step** of a call with arbitrary callbacks. -/
theorem InOrder.step (h : InOrder s₀ (s, l)) (ha : a.duringProcess = true)
    (hstep : step s a = some s') : InOrder s₀ (s', l ++ s.firings a) := by
  have hs := h.inv
  have hE := step_effect hs hstep
  have hinv := hE.inv hs
  have hwait := ne_waiting_of_step ha hstep
  have hnow : s.now = s₀.now := h.now_eq
  cases hE with
  | timerNew hnone =>
    rw [firings_of_log_eq hstep rfl, List.append_nil]
    refine h.congr hinv rfl h.control hwait rfl fun n tv hn ↦ Or.inl ?_
    rwa [← armed_timerNodeInit hs.heap (hs.not_mem_of_none hnone)]
  | addRefused | delRefused =>
    rw [firings_of_log_eq hstep rfl, List.append_nil]
    exact h
  | addFailed hτ hdel hn hafter hcap halloc | tcpAddFailed hn hafter =>
    rw [firings_of_log_eq hstep rfl, List.append_nil]
    refine h.congr hinv rfl h.control hwait rfl fun n tv hn' ↦ Or.inl ?_
    exact (congrFun (armed_setTimeout hn _) n).symm.trans hn'
  | @added t τ after repeats callback clock alloc capacity hτ hdel hn hafter hcap =>
    -- an accepted delay is not negative: the new expiry is not before the time of the call
    rw [firings_of_call hstep rfl nofun, List.append_nil]
    have h₁ := hs.setTimer hτ { τ with after, repeats, callback } hafter rfl (Or.inl rfl)
    refine h.congr hinv rfl h.control hwait rfl fun m tv hm ↦ ?_
    exact armed_arm_or h₁.expiryAsserted hn after (hnow ▸ hs.now_le_expires hafter clock) hm
  | delInvoking hτ hdel hinvoking =>
    rw [firings_of_call hstep rfl nofun, List.append_nil]
    exact h.congr hinv rfl h.control hwait rfl fun _ _ hn ↦ Or.inl hn
  | deleted hτ hinvoking =>
    rw [firings_of_call hstep rfl nofun, List.append_nil]
    exact h.congr hinv rfl h.control hwait rfl fun _ _ hn ↦ Or.inl (armed_erase_le hs hn)
  | freeInvoking hτ hdel hinvoking | freed hτ hinvoking | tcpDel =>
    rw [firings_of_log_eq hstep rfl, List.append_nil]
    exact h.congr hinv rfl h.control hwait rfl fun _ _ hn ↦ Or.inl (armed_erase_le hs hn)
  | tcpAddRefused hafter =>
    rw [firings_of_log_eq hstep rfl, List.append_nil]
    exact h.congr hinv rfl h.control hwait rfl fun _ _ hn ↦ Or.inl hn
  | @tcpAdded e write after clock alloc capacity hn hafter hcap =>
    rw [firings_of_log_eq hstep rfl, List.append_nil]
    refine h.congr hinv rfl h.control hwait rfl fun m tv hm ↦ ?_
    exact armed_arm_or hs.expiryAsserted hn after (hnow ▸ hs.now_le_expires hafter clock) hm
  | processed hc hnone =>
    -- the call returns, and nothing that is armed has expired
    rw [firings_of_log_eq hstep rfl, List.append_nil]
    exact ⟨hinv, hnow, rfl, h.log, h.due, h.sorted, h.ahead, fun _ n tv hn ↦ hnow ▸ hnone n tv hn⟩
  | firedTimer hc harmed hexp hmin hτ hdel | firedTcp hc harmed hexp hmin =>
    rw [firings_of_fired hstep rfl]
    exact h.fire harmed hexp hmin hinv rfl rfl nofun rfl (armed_erase hs _)
  | returnDeleted hc hτ hdel | returned hc hτ hdel hre | tcpReturn hc =>
    rw [firings_of_log_eq hstep rfl, List.append_nil]
    exact h.congr hinv rfl rfl nofun rfl fun _ _ hn ↦ Or.inl hn
  | @reinserted t τ clock hc hτ hdel hrep hn hre =>
    rw [firings_of_log_eq hstep rfl, List.append_nil]
    have h₁ := hs.leaveCallback hc hτ
    refine h.congr hinv rfl rfl nofun rfl fun m tv hm ↦ ?_
    exact armed_arm_or h₁.expiryAsserted hn τ.after
      (hnow ▸ hs.now_le_expires (hs.after t τ hτ) clock) hm
  -- `timers_process` is not running
  | runEnter => cases ha
  | updateTime => cases ha
  | poll => cases ha
  | nextIteration => cases ha
  | runExit => cases ha

theorem InOrder.begin (hs : s.Inv) (hc : s.control = .processing) : InOrder s (s, []) := by
  refine ⟨hs, rfl, by rw [hc]; rfl, rfl, nofun, List.Pairwise.nil, nofun, fun hw ↦ ?_⟩
  rw [hc] at hw
  cases hw

/-- **A call** with arbitrary callbacks. -/
theorem inOrder_of_run {as : List Action} {x : TimerLoop × List Firing} (hs : s.Inv)
    (hc : s.control = .processing)
    (h : Run (recording TimerLoop.step firings) (fun _ a ↦ a.duringProcess = true) (s, []) as x) :
    InOrder s x := by
  refine h.invariant (I := InOrder s) (fun x a y hx ha hstep ↦ ?_) (InOrder.begin hs hc)
  obtain ⟨hstep, hrec⟩ := recording_eq_some hstep
  obtain ⟨t, l⟩ := y
  obtain rfl := hrec
  exact hx.step ha hstep

/-! ## Callbacks that leave the timers alone -/

/-- The state of a call that began in `s₀` and whose callbacks leave the timers alone, with the
nodes that it has fired. -/
structure Quiet (add : Timeval → Timeval → Timeval) (P : Timeval.Reading → Prop) (s₀ : TimerLoop)
    (x : TimerLoop × List NodeRef) : Prop where
  inv : x.1.Inv
  now_eq : x.1.now = s₀.now
  timer : ∀ t, x.1.timer t = (s₀.timer t).map fun τ ↦
    { τ with invokingCallback := decide (x.1.control = .timerCallback t) }
  log : x.1.log = (x.2.map .fired).reverse ++ s₀.log
  nodup : x.2.Nodup
  due : ∀ n ∈ x.2, ∃ tv, s₀.timers.armed n = some tv ∧ tv.key ≤ s₀.now.key
  others : ∀ n ∉ x.2, x.1.timers.armed n = s₀.timers.armed n
  /-- The timer whose callback is running has been fired and is not armed. -/
  current : ∀ t, x.1.control = .timerCallback t →
    .timer t ∈ x.2 ∧ x.1.timers.armed (.timer t) = none
  fired : ∀ n ∈ x.2, (∀ t, n = .timer t → x.1.control ≠ .timerCallback t) →
    x.1.timers.armed n = none ∧ (∀ base, s₀.rearmed add base n = none) ∨
      ∃ c, P c ∧ x.1.timers.armed n = s₀.rearmed add (s₀.loopNow c) n

theorem Quiet.begin (hs : s.Inv) (hc : s.control = .processing) : Quiet add P s (s, []) where
  inv := hs
  now_eq := rfl
  timer t := by
    have hne : s.control ≠ .timerCallback t := processing_ne hc t
    rw [decide_eq_false hne]
    cases hτ : s.timer t with
    | none => rfl
    | some τ =>
      have hflag : τ.invokingCallback = false :=
        Bool.eq_false_iff.mpr fun hv ↦ hne ((hs.invoking t).mpr ⟨τ, hτ, hv⟩)
      rw [Option.map_some, ← hflag]
  log := rfl
  nodup := List.nodup_nil
  due := nofun
  others _ _ := rfl
  current t ht := absurd ht (processing_ne hc t)
  fired := nofun

theorem Quiet.timer_eq_some (h : Quiet add P s₀ (s, l₀)) (hτ : s.timer t = some τ) :
    ∃ τ₀, s₀.timer t = some τ₀ ∧
      τ = { τ₀ with invokingCallback := decide (s.control = .timerCallback t) } := by
  have heq := h.timer t
  rw [show s.timer t = some τ from hτ] at heq
  obtain ⟨τ₀, hτ₀, rfl⟩ := Option.map_eq_some_iff.mp heq.symm
  exact ⟨τ₀, hτ₀, rfl⟩

/-- The flag of one timer is written as the control moves into its callback, or out of it. -/
theorem Quiet.timer_update (h : Quiet add P s₀ (s, l₀)) (hτ : s.timer t = some τ) {v : Bool}
    {c : Control} (hself : v = decide (c = .timerCallback t))
    (hother : ∀ u ≠ t, c ≠ .timerCallback u ∧ s.control ≠ .timerCallback u) (u : ℕ) :
    Function.update s.timer t (some { τ with invokingCallback := v }) u =
      (s₀.timer u).map fun σ ↦ { σ with invokingCallback := decide (c = .timerCallback u) } := by
  by_cases hu : u = t
  · subst hu
    obtain ⟨τ₀, hτ₀, rfl⟩ := h.timer_eq_some hτ
    rw [Function.update_self, hτ₀, Option.map_some, hself]
  · obtain ⟨hc, hs⟩ := hother u hu
    rw [Function.update_of_ne hu, decide_eq_false hc, ← decide_eq_false hs]
    exact h.timer u

/-- Nothing is fired twice: what has been armed again is not due. -/
theorem Quiet.fresh (hlater : s₀.RearmsLater add P) (h : Quiet add P s₀ (s, l₀))
    (hc : s.control = .processing) (harmed : s.timers.armed n = some tv)
    (hexp : tv.key ≤ s.now.key) : n ∉ l₀ := by
  intro hmem
  obtain ⟨tv₀, harmed₀, hdue⟩ := h.due n hmem
  have hnow : s.now = s₀.now := h.now_eq
  rcases h.fired n hmem fun t _ ↦ processing_ne hc t with ⟨hnone, -⟩ | ⟨c, hclock, hre⟩
  · rw [show s.timers.armed n = none from hnone] at harmed
    cases harmed
  · have hlt := hlater.now_lt_rearmed hclock harmed₀ hdue (hre.symm.trans harmed)
    rw [hnow] at hexp
    exact absurd hexp hlt.not_ge

theorem Quiet.fire (hlater : s₀.RearmsLater add P) (h : Quiet add P s₀ (s, l₀))
    (hc : s.control = .processing) (harmed : s.timers.armed n = some tv)
    (hexp : tv.key ≤ s.now.key) (hinv : s'.Inv) (hnow : s'.now = s.now)
    (htimer : ∀ t, s'.timer t = (s₀.timer t).map fun τ ↦
      { τ with invokingCallback := decide (s'.control = .timerCallback t) })
    (hlog : s'.log = .fired n :: s.log)
    (harmed' : s'.timers.armed = Function.update s.timers.armed n none)
    (hself : ∀ t, s'.control = .timerCallback t → n = .timer t)
    (hfired : (∀ t, n = .timer t → s'.control ≠ .timerCallback t) →
      ∀ base, s₀.rearmed add base n = none) : Quiet add P s₀ (s', l₀ ++ [n]) := by
  have hfresh := h.fresh hlater hc harmed hexp
  have hmem : ∀ m, m ∈ l₀ ++ [n] ↔ m ∈ l₀ ∨ m = n := by
    intro m
    rw [List.mem_append, List.mem_singleton]
  refine ⟨hinv, hnow.trans h.now_eq, htimer, ?_, ?_, ?_, ?_, ?_, ?_⟩
  · rw [List.map_append, List.reverse_append, hlog, show s.log = _ from h.log]
    rfl
  · exact List.nodup_append.mpr ⟨h.nodup, List.nodup_singleton n, fun m hm k hk heq ↦
      hfresh (List.mem_singleton.mp hk ▸ heq ▸ hm)⟩
  · intro m hm
    rcases (hmem m).mp hm with hm | rfl
    · exact h.due m hm
    · have hold : s₀.timers.armed m = some tv := (h.others m hfresh).symm.trans harmed
      have hnow₀ : s.now = s₀.now := h.now_eq
      exact ⟨tv, hold, hnow₀ ▸ hexp⟩
  · intro m hm
    rw [hmem, not_or] at hm
    dsimp only
    rw [harmed', Function.update_of_ne hm.2]
    exact h.others m hm.1
  · intro t ht
    obtain rfl := hself t ht
    exact ⟨(hmem _).mpr (Or.inr rfl), by dsimp only; rw [harmed', Function.update_self]⟩
  · intro m hm hcur
    dsimp only
    rw [harmed']
    by_cases heq : m = n
    · subst heq
      exact Or.inl ⟨Function.update_self .., hfired hcur⟩
    · rw [Function.update_of_ne heq]
      exact h.fired m (((hmem m).mp hm).resolve_right heq) fun t _ ↦ processing_ne hc t

/-- The callback of a timer returns, and the timer is armed again if it repeats. -/
theorem Quiet.callbackReturn (h : Quiet add P s₀ (s, l₀)) (hclock : P clock)
    (hc : s.control = .timerCallback t) (hτ : s.timer t = some τ) (hinv : s'.Inv)
    (hnow : s'.now = s.now) (hc' : s'.control = .processing) (hlog : s'.log = s.log)
    (htimer : s'.timer = Function.update s.timer t (some { τ with invokingCallback := false }))
    (harmed : s'.timers.armed = Function.update s.timers.armed (.timer t)
      (s₀.rearmed add (s₀.loopNow clock) (.timer t))) :
    Quiet add P s₀ (s', l₀) := by
  obtain ⟨hmem, -⟩ := h.current t hc
  have hne : ∀ u, s'.control ≠ .timerCallback u := processing_ne hc'
  refine ⟨hinv, hnow.trans h.now_eq, ?_, hlog.trans h.log, h.nodup, h.due, ?_, ?_, ?_⟩
  · intro u
    dsimp only
    rw [htimer]
    refine h.timer_update hτ (decide_eq_false (hne t)).symm (fun v hv ↦ ⟨hne v, ?_⟩) u
    rw [hc]
    exact fun heq ↦ hv (Control.timerCallback.inj heq).symm
  · intro n hn
    have hnt : n ≠ .timer t := fun heq ↦ hn (heq ▸ hmem)
    dsimp only
    rw [harmed, Function.update_of_ne hnt]
    exact h.others n hn
  · exact fun u hu ↦ absurd hu (hne u)
  · intro n hn _
    dsimp only
    rw [harmed]
    by_cases heq : n = .timer t
    · subst heq
      exact Or.inr ⟨clock, hclock, Function.update_self ..⟩
    · rw [Function.update_of_ne heq]
      refine h.fired n hn fun u hu hcu ↦ ?_
      rw [show s.control = _ from hc] at hcu
      obtain rfl := Control.timerCallback.inj hcu
      exact heq hu

/-- A repeating timer that is not armed when its callback returns is put back. -/
theorem reinserts_of_armed_eq_none (hdel : τ.deleted = false) (hrep : τ.repeats = true)
    (hnone : s.timers.armed (.timer t) = none) : s.reinserts t τ = true := by
  rw [reinserts, timerNodeActive_eq, hdel, hrep, hnone]
  rfl

/-- What `timer_event_node_callback` decides on after the callback, in terms of the state in which
the call began. -/
theorem Quiet.rearmed_eq (h : Quiet add P s₀ (s, l₀)) (hτ : s.timer t = some τ)
    (base : Timeval) :
    s₀.rearmed add base (.timer t) = if τ.repeats then some (add base τ.after) else none := by
  obtain ⟨τ₀, hτ₀, rfl⟩ := h.timer_eq_some hτ
  rw [rearmed, hτ₀]

theorem Quiet.setControl (h : Quiet add P s₀ (s, l₀)) (hfrom : ∀ t, s.control ≠ .timerCallback t)
    {c : Control} (hto : ∀ t, c ≠ .timerCallback t) (hinv : Inv { s with control := c }) :
    Quiet add P s₀ ({ s with control := c }, l₀) := by
  refine ⟨hinv, h.now_eq, fun t ↦ ?_, h.log, h.nodup, h.due, h.others,
    fun t ht ↦ absurd ht (hto t), fun n hn _ ↦ h.fired n hn fun t _ ↦ hfrom t⟩
  have heq := h.timer t
  dsimp only at heq ⊢
  rw [decide_eq_false (hfrom t)] at heq
  rw [decide_eq_false (hto t)]
  exact heq

theorem Quiet.extend_nil (h : Quiet add P s₀ (s', l₀)) (hlog : s'.log = s.log) :
    Quiet add P s₀ (s', l₀ ++ firedBy s s') := by
  rwa [firedBy_of_log_eq hlog, List.append_nil]

theorem Quiet.extend (h : Quiet add P s₀ (s', l₀ ++ [n])) (hlog : s'.log = .fired n :: s.log) :
    Quiet add P s₀ (s', l₀ ++ firedBy s s') := by
  rwa [firedBy_of_fired hlog]

/-- **One step** of a call whose callbacks leave the timers alone. -/
theorem Quiet.step (hs₀ : s₀.Inv) (hlater : s₀.RearmsLater add P) (h : Quiet add P s₀ (s, l₀))
    (hE : EffectBy add s a s') (hinv : s'.Inv) (ha : a.isTurn = true)
    (hclock : ∀ clock, a = .callbackReturn clock → P clock) :
    Quiet add P s₀ (s', l₀ ++ firedBy s s') := by
  have hs : s.Inv := h.inv
  have hnow : s.now = s₀.now := h.now_eq
  cases hE with
  | processed hc hnone =>
    have hto : ∀ t, Control.waiting ≠ .timerCallback t := nofun
    exact (h.setControl (processing_ne hc) hto hinv).extend_nil rfl
  | @firedTimer t τ tv hc harmed hexp hmin hτ hdel =>
    refine Quiet.extend (h.fire hlater hc harmed hexp hinv rfl ?_ rfl (armed_erase hs _) ?_ ?_) rfl
    · exact h.timer_update hτ (by simp) fun u hu ↦
        ⟨fun heq ↦ hu (Control.timerCallback.inj heq).symm, processing_ne hc u⟩
    · exact fun u hu ↦ congrArg NodeRef.timer (Control.timerCallback.inj hu)
    · exact fun hno ↦ absurd rfl (hno t rfl)
  | @firedTcp e write tv hc harmed hexp hmin =>
    refine Quiet.extend (h.fire hlater hc harmed hexp hinv rfl (fun t ↦ ?_) rfl (armed_erase hs _)
      nofun fun _ _ ↦ rfl) rfl
    have heq := h.timer t
    dsimp only at heq ⊢
    rw [hc] at heq
    exact heq
  | @returnDeleted t τ clock hc hτ hdel =>
    -- a timer that was armed when the call began has not been freed
    obtain ⟨tv, harmed, -⟩ := h.due _ (h.current t hc).1
    obtain ⟨τ₁, hτ₁, hdel₁⟩ := hs₀.live t tv harmed
    obtain ⟨τ₀, hτ₀, rfl⟩ := h.timer_eq_some hτ
    rw [hτ₀] at hτ₁
    obtain rfl := Option.some.inj hτ₁
    rw [show τ₀.deleted = true from hdel] at hdel₁
    cases hdel₁
  | @returned t τ clock hc hτ hdel hre =>
    obtain ⟨-, hnone⟩ := h.current t hc
    have hrep : τ.repeats = false := by
      refine Bool.eq_false_iff.mpr fun hrep ↦ Bool.eq_false_iff.mp hre ?_
      exact reinserts_of_armed_eq_none hdel hrep hnone
    refine Quiet.extend_nil (h.callbackReturn (hclock clock rfl) hc hτ hinv rfl rfl rfl rfl ?_) rfl
    rw [h.rearmed_eq hτ, hrep, if_neg Bool.false_ne_true, ← hnone]
    exact (Function.update_eq_self ..).symm
  | @reinserted t τ clock hc hτ hdel hrep hn hre =>
    refine Quiet.extend_nil (h.callbackReturn (hclock clock rfl) hc hτ hinv rfl rfl rfl rfl ?_) rfl
    rw [h.rearmed_eq hτ, hrep, if_pos rfl]
    have hbase : s.loopNow clock = s₀.loopNow clock := by rw [loopNow, loopNow, hnow]
    rw [← hbase]
    exact armed_pushLast hs.heap hn (add (s.loopNow clock) τ.after) s.timers.capacity
  | tcpReturn hc =>
    refine Quiet.extend_nil (h.setControl (fun t ↦ ?_) nofun hinv) rfl
    rw [hc]
    exact nofun
  | _ => cases ha

/-- At most as many callbacks are invoked as there are armed nodes when the call begins. -/
theorem Quiet.length_le (hs₀ : s₀.Inv) (h : Quiet add P s₀ (s, l₀)) :
    l₀.length ≤ s₀.timers.size := by
  have hsub : l₀.toFinset ⊆ (Finset.range s₀.timers.size).image s₀.timers.events := by
    intro n hn
    obtain ⟨tv, harmed, -⟩ := h.due n (List.mem_toFinset.mp hn)
    obtain ⟨i, hi, heq⟩ := hs₀.heap.holds.mem n (armed_eq_some_iff.mp harmed).1
    exact Finset.mem_image.mpr ⟨i, Finset.mem_range.mpr hi, heq⟩
  calc l₀.length = l₀.toFinset.card := (List.toFinset_card_of_nodup h.nodup).symm
    _ ≤ ((Finset.range s₀.timers.size).image s₀.timers.events).card := Finset.card_le_card hsub
    _ ≤ (Finset.range s₀.timers.size).card := Finset.card_image_le
    _ = s₀.timers.size := Finset.card_range _

/-! ## Calls over the integers -/

theorem Inv.rearmsLater (hs : s.Inv)
    (hpos : ∀ t τ, s.timer t = some τ → τ.repeats = true → τ.after ≠ ⟨0, 0⟩) :
    s.RearmsLater timeAdd P :=
  fun t _ τ clock _ _ _ hτ hrep ↦ hs.now_lt_expires (hs.after t τ hτ) (hpos t τ hτ hrep) clock

/-- **A call** whose callbacks leave the timers alone. -/
theorem quiet_of_run {as : List Action} {x : TimerLoop × List Firing} (hs : s.Inv)
    (hc : s.control = .processing) (hlater : s.RearmsLater timeAdd P)
    (h : Run (recording TimerLoop.step firings)
      (fun _ a ↦ a.isTurn = true ∧ ∀ clock, a = .callbackReturn clock → P clock) (s, []) as x) :
    Quiet timeAdd P s (x.1, x.2.map Firing.node) := by
  refine h.invariant (I := fun x ↦ Quiet timeAdd P s (x.1, x.2.map Firing.node))
    (fun x a y hx ha hstep ↦ ?_) (Quiet.begin hs hc)
  obtain ⟨hstep, hrec⟩ := recording_eq_some hstep
  obtain ⟨t, l⟩ := y
  obtain rfl := hrec
  have hE := step_effect hx.inv hstep
  have hnext := hx.step hs hlater hE (hE.inv hx.inv) ha.1 ha.2
  rw [← map_firings hstep, ← List.map_append] at hnext
  exact hnext

/-! ## The loop ends -/

theorem timerReturnBy_control (s : TimerLoop) (t : ℕ) (τ : Timer) (clock : Timeval.Reading) :
    (s.timerReturnBy add t τ clock).control = .processing ∧
      (s.timerReturnBy add t τ clock).log = s.log := by
  rcases timerReturnBy_cases add s t τ clock with ⟨-, heq⟩ | ⟨-, -, heq⟩ | ⟨-, -, -, -, heq⟩
  · rw [heq]
    exact ⟨rfl, rfl⟩
  · rw [heq]
    exact ⟨rfl, rfl⟩
  · rw [heq]
    exact ⟨rfl, rfl⟩

/-- A turn is the last one, or it invokes a callback, which returns to the head of the loop. -/
theorem turn_cases (hs : s.Inv) (hc : s.control = .processing) :
    s.processTurn.control = .waiting ∨
      (s.processTurn.control ≠ .waiting ∧ (∃ n, s.processTurn.log = .fired n :: s.log) ∧
        ∀ clock, ∃ s', step64 s.processTurn (.callbackReturn clock) = some s' ∧
          s'.control = .processing ∧ s'.log = s.processTurn.log) := by
  have hE : EffectBy timeAdd64 s .processTurn s.processTurn := processTurn_effect hs hc
  generalize s.processTurn = s₁ at hE
  cases hE with
  | processed => exact Or.inl rfl
  | @firedTimer t τ tv hc harmed hexp hmin hτ hdel =>
    refine Or.inr ⟨nofun, ⟨.timer t, rfl⟩, fun clock ↦ ?_⟩
    have hself : Function.update s.timer t (some { τ with invokingCallback := true }) t = _ :=
      Function.update_self ..
    refine ⟨_, Option.map_eq_some_iff.mpr ⟨_, hself, rfl⟩, ?_⟩
    exact timerReturnBy_control ..
  | @firedTcp e write tv hc harmed hexp hmin =>
    exact Or.inr ⟨nofun, ⟨.tcp e write, rfl⟩, fun clock ↦ ⟨_, rfl, rfl, rfl⟩⟩

/-- Each turn but the last one invokes a callback for the first time, so the loop runs out of nodes
before it runs out of fuel. -/
theorem Quiet.timersProcess (hs₀ : s₀.Inv) (clocks : ℕ → Timeval.Reading)
    (hlater : s₀.RearmsLater timeAdd64 fun c ↦ ∃ k, c = clocks k) (fuel : ℕ) :
    ∀ {s : TimerLoop} {l₀ : List NodeRef},
      Quiet timeAdd64 (fun c ↦ ∃ k, c = clocks k) s₀ (s, l₀) → s.control = .processing →
      s₀.timers.size < fuel + l₀.length →
      ∃ s' l', s.timersProcess clocks fuel = some s' ∧ s'.control = .waiting ∧
        Quiet timeAdd64 (fun c ↦ ∃ k, c = clocks k) s₀ (s', l') := by
  induction fuel with
  | zero =>
    intro s l₀ h hc hfuel
    have := h.length_le hs₀
    omega
  | succ fuel ih =>
    intro s l₀ h hc hfuel
    have hs : s.Inv := h.inv
    have hturn : EffectBy timeAdd64 s .processTurn s.processTurn := processTurn_effect hs hc
    have hinv₁ := hturn.inv Timeval.Proper.timeAdd64 hs
    have hno : ∀ c, Action.processTurn = .callbackReturn c → ∃ k, c = clocks k :=
      fun _ heq ↦ Action.noConfusion heq
    have h₁ := h.step hs₀ hlater hturn hinv₁ rfl hno
    rw [TimerLoop.timersProcess]
    rcases turn_cases hs hc with hw | ⟨hw, ⟨n, hlog⟩, hret⟩
    · rw [if_pos hw]
      exact ⟨_, _, rfl, hw, h₁⟩
    · obtain ⟨s₂, hstep, hc₂, hlog₂⟩ := hret (clocks fuel)
      have hclock : ∀ c, Action.callbackReturn (clocks fuel) = .callbackReturn c →
          ∃ k, c = clocks k := fun c heq ↦ ⟨fuel, (Action.callbackReturn.inj heq).symm⟩
      have h₂ := h₁.step hs₀ hlater (step64_effect hinv₁ hstep) (inv_of_step64 hinv₁ hstep) rfl
        hclock
      rw [firedBy_of_fired hlog, firedBy_of_log_eq hlog₂, List.append_nil] at h₂
      rw [if_neg hw, hstep, Option.bind_some]
      refine ih h₂ hc₂ ?_
      rw [List.length_append, List.length_singleton]
      omega

theorem NoBusyRepeat.rearmsLater {clocks : ℕ → Timeval.Reading} (h : s.NoBusyRepeat clocks)
    (hs : s.Inv) : s.RearmsLater timeAdd64 fun c ↦ ∃ k, c = clocks k := by
  rintro t tv τ clock ⟨k, rfl⟩ harmed hdue hτ hrep
  obtain ⟨hne, hfits⟩ := h t tv τ harmed hdue hτ hrep
  have hafter := hs.after t τ hτ
  rw [timeAdd64_eq (hs.loopNow_normalized _) hafter (hfits k)]
  exact hs.now_lt_expires hafter hne _

/-! ## The order of the firings -/

/-- **Only expired timers are fired, in the order of their expiries.** The callbacks may arm, delete
and free timers. If they do not, a call fires exactly the nodes that have expired, once each, and
leaves the others as they are. What it has fired is armed again if it repeats, at the loop time plus
the interval; the loop time is the cached clock, unless that is zero. -/
theorem timersProcess_fires_expired {s₁ : TimerLoop} {as : List Action} (hs : s₀.Inv)
    (hc : s₀.control = .processing)
    (hrun : Run (recording TimerLoop.step firings) (fun _ a ↦ a.duringProcess = true) (s₀, []) as
      (s₁, l))
    (hret : s₁.control = .waiting) :
    s₁.log.filterMap TimerObs.firedNode =
        (l.map Firing.node).reverse ++ s₀.log.filterMap TimerObs.firedNode ∧
      (∀ f ∈ l, f.Due s₀.now) ∧ (l.Pairwise fun f g ↦ f.timeout.key ≤ g.timeout.key) ∧
      (∀ n tv, s₁.timers.armed n = some tv → s₀.now.key < tv.key) ∧
      ((∀ a ∈ as, a.isTurn = true) →
        (∀ t τ, s₀.timer t = some τ → τ.repeats = true → τ.after ≠ ⟨0, 0⟩) →
          (l.map Firing.node).Nodup ∧
            (∀ n, n ∈ l.map Firing.node ↔
              ∃ tv, s₀.timers.armed n = some tv ∧ tv.key ≤ s₀.now.key) ∧
            (∀ n, n ∉ l.map Firing.node → s₁.timers.armed n = s₀.timers.armed n) ∧
            (∀ n ∈ l.map Firing.node, ∃ clock,
              s₁.timers.armed n = s₀.rearmed timeAdd (s₀.loopNow clock) n) ∧
            (s₀.now ≠ ⟨0, 0⟩ → ∀ n ∈ l.map Firing.node,
              s₁.timers.armed n = s₀.rearmed timeAdd s₀.now n)) := by
  have hord := inOrder_of_run hs hc hrun
  refine ⟨hord.log, hord.due, hord.sorted, hord.done hret, fun hturns hpos ↦ ?_⟩
  have hquiet : Quiet timeAdd (fun _ ↦ True) s₀ (s₁, l.map Firing.node) :=
    quiet_of_run hs hc (hs.rearmsLater hpos)
      (hrun.restrict fun a ha ↦ ⟨hturns a ha, fun _ _ ↦ trivial⟩)
  have hfired : ∀ n ∈ l.map Firing.node, ∃ clock,
      s₁.timers.armed n = s₀.rearmed timeAdd (s₀.loopNow clock) n := by
    intro n hn
    have hidle : ∀ t, n = .timer t → s₁.control ≠ .timerCallback t := by
      intro t _
      rw [hret]
      exact nofun
    rcases hquiet.fired n hn hidle with ⟨hnone, hre⟩ | ⟨c, -, hre⟩
    · exact ⟨.ofSec 0, hnone.trans (hre _).symm⟩
    · exact ⟨c, hre⟩
  refine ⟨hquiet.nodup, fun n ↦ ⟨hquiet.due n, ?_⟩, hquiet.others, hfired, fun hnow n hn ↦ ?_⟩
  · -- a node that has not been fired is still armed, hence not expired
    rintro ⟨tv, harmed, hdue⟩
    by_contra hn
    exact absurd hdue (hord.done hret n tv ((hquiet.others n hn).trans harmed)).not_ge
  · obtain ⟨clock, hre⟩ := hfired n hn
    rwa [loopNow, if_pos (Timeval.ne_zero_iff.mp hnow)] at hre

/-- A timer that repeats every 5 seconds, a write timeout and a timer that has not expired. -/
def armDue : List Action :=
  [.timerNew 0, .timerAdd 0 ⟨5, 0⟩ true 0 (.ofSec 100) true,
    .tcpTimeoutAdd 1 true ⟨3, 0⟩ (.ofSec 100) true, .timerNew 1,
    .timerAdd 1 ⟨50, 0⟩ false 0 (.ofSec 100) true, .runEnter (.ofSec 110), .updateTime (.ofSec 110)]

def dueTimers : TimerLoop := (exec TimerLoop.step anyStep init armDue).getD init

theorem dueTimers_reachable : Reachable TimerLoop.step anyStep init dueTimers :=
  ⟨armDue, Run.of_exec rfl⟩

theorem dueTimers_timer (t : ℕ) (τ : Timer) (h : dueTimers.timer t = some τ)
    (hrep : τ.repeats = true) : τ.after = ⟨5, 0⟩ := by
  match t with
  | 0 =>
    rw [show dueTimers.timer 0 = some ⟨false, false, ⟨5, 0⟩, true, 0⟩ by decide +kernel] at h
    obtain rfl := Option.some.inj h
    rfl
  | 1 =>
    rw [show dueTimers.timer 1 = some ⟨false, false, ⟨50, 0⟩, false, 0⟩ by decide +kernel] at h
    obtain rfl := Option.some.inj h
    cases hrep
  | t + 2 =>
    rw [show dueTimers.timer (t + 2) = none from rfl] at h
    cases h

def serveDue : List Action :=
  [.processTurn, .callbackReturn (.ofSec 110), .processTurn, .callbackReturn (.ofSec 110),
    .processTurn]

theorem timersProcess_fires_expired_dueTimers :
    ∃ s₁ l, Run (recording TimerLoop.step firings) (fun _ a ↦ a.duringProcess = true)
      (dueTimers, [])
        serveDue (s₁, l) ∧ s₁.control = .waiting ∧ l.map Firing.node = [.tcp 1 true, .timer 0] ∧
      (l.map Firing.node).Nodup ∧
      s₁.timers.armed (.timer 0) = dueTimers.rearmed timeAdd dueTimers.now (.timer 0) ∧
      s₁.timers.armed (.timer 1) = dueTimers.timers.armed (.timer 1) := by
  have hexec : (exec (recording TimerLoop.step firings) (fun _ a ↦ a.duringProcess = true)
      (dueTimers, []) serveDue).map (fun x ↦ (x.1.control, x.2.map Firing.node)) =
      some (.waiting, [.tcp 1 true, .timer 0]) := by decide +kernel
  obtain ⟨⟨s₁, l⟩, hexec, heq⟩ := Option.map_eq_some_iff.mp hexec
  obtain ⟨hret, hl⟩ := Prod.mk.inj heq
  have hrun := Run.of_exec hexec
  have hinv : dueTimers.Inv := inv_of_reachable dueTimers_reachable
  obtain ⟨-, -, -, -, hquiet⟩ := timersProcess_fires_expired hinv (by decide +kernel) hrun hret
  have hpos : ∀ t τ, dueTimers.timer t = some τ → τ.repeats = true → τ.after ≠ ⟨0, 0⟩ := by
    intro t τ hτ hrep
    rw [dueTimers_timer t τ hτ hrep]
    decide
  obtain ⟨hnodup, -, hothers, -, hrearmed⟩ := hquiet (by decide) hpos
  refine ⟨s₁, l, hrun, hret, hl, hnodup, ?_, ?_⟩
  · exact hrearmed (by decide +kernel) _ (by rw [hl]; decide)
  · exact hothers _ (by rw [hl]; decide)

/-- A timer that repeats every second is armed at 9 seconds; the run is entered at 10, and the clock
then reads zero. -/
def armAtNine : List Action :=
  [.timerNew 0, .timerAdd 0 ⟨1, 0⟩ true 0 (.ofSec 9) true, .runEnter (.ofSec 10),
    .updateTime (.ofSec 0)]

def expiredAtZero : TimerLoop := (exec TimerLoop.step anyStep init armAtNine).getD init

/-- With a cached clock of zero the repetition is counted from what the system clock reads: a zero
stands for a loop that has not cached a time. No assertion has failed on the way. -/
theorem exists_rearmed_from_systemClock :
    ∃ s₀ s₁ as l, Reachable TimerLoop.step anyStep init s₀ ∧ s₀.control = .processing ∧
      Run (recording TimerLoop.step firings) (fun _ a ↦ a.duringProcess = true) (s₀, []) as
        (s₁, l) ∧
      s₁.control = .waiting ∧ (∀ a ∈ as, a.isTurn = true) ∧
      (∀ t τ, s₀.timer t = some τ → τ.repeats = true → τ.after ≠ ⟨0, 0⟩) ∧
      s₁.assertFailures = 0 ∧ .timer 0 ∈ l.map Firing.node ∧
      s₁.timers.armed (.timer 0) ≠ s₀.rearmed timeAdd s₀.now (.timer 0) := by
  have hexec : (exec (recording TimerLoop.step firings) (fun _ a ↦ a.duringProcess = true)
      (expiredAtZero, []) [.processTurn, .callbackReturn (.ofSec 7), .processTurn]).map
        (fun x ↦ (x.1.control, x.1.assertFailures, x.2.map Firing.node,
          x.1.timers.armed (.timer 0))) =
      some (.waiting, 0, [.timer 0], some ⟨8, 0⟩) := by decide +kernel
  obtain ⟨⟨s₁, l⟩, hexec, heq⟩ := Option.map_eq_some_iff.mp hexec
  simp only [Prod.mk.injEq] at heq
  obtain ⟨hret, hasserts, hl, harmed⟩ := heq
  refine ⟨expiredAtZero, s₁, _, l, ⟨armAtNine, Run.of_exec rfl⟩, by decide +kernel,
    Run.of_exec hexec, hret, by decide, fun t τ h hrep ↦ ?_, hasserts, ?_, ?_⟩
  · match t with
    | 0 =>
      rw [show expiredAtZero.timer 0 = some ⟨false, false, ⟨1, 0⟩, true, 0⟩ by decide +kernel] at h
      obtain rfl := Option.some.inj h
      decide
    | t + 1 =>
      rw [show expiredAtZero.timer (t + 1) = none from rfl] at h
      cases h
  · rw [hl]
    exact List.mem_singleton_self _
  · rw [harmed, show expiredAtZero.rearmed timeAdd expiredAtZero.now (.timer 0) = some ⟨1, 0⟩ by
      decide +kernel]
    decide

/-! ## A repeating timer that is always due -/

/-- The timer `t` has expired, and is due again as soon as it has been put back. -/
structure Busy (t : ℕ) (s : TimerLoop) : Prop where
  inv : s.Inv
  control : s.control = .processing
  now : s.now ≠ ⟨0, 0⟩
  repeats : ∃ τ, s.timer t = some τ ∧ τ.repeats = true ∧ (timeAdd64 s.now τ.after).key ≤ s.now.key
  due : ∃ tv, s.timers.armed (.timer t) = some tv ∧ tv.key ≤ s.now.key

/-- Another callback returns: the timer `t` and its expiry are as before. -/
theorem Busy.congr (h : Busy t s) (hinv : s'.Inv) (hc : s'.control = .processing)
    (hnow : s'.now = s.now) (htimer : s'.timer t = s.timer t)
    (harmed : s'.timers.armed (.timer t) = s.timers.armed (.timer t)) : Busy t s' := by
  refine ⟨hinv, hc, hnow ▸ h.now, ?_, ?_⟩
  · rw [htimer, hnow]
    exact h.repeats
  · rw [harmed, hnow]
    exact h.due

theorem Busy.control_processTurn (h : Busy t s) : s.processTurn.control ≠ .waiting := by
  obtain ⟨tv₀, harmed₀, hdue₀⟩ := h.due
  have hE : EffectBy timeAdd64 s .processTurn s.processTurn := processTurn_effect h.inv h.control
  intro hw
  generalize s.processTurn = s₁ at hE hw
  cases hE with
  | processed hc hnone => exact absurd hdue₀ (hnone _ _ harmed₀).not_ge
  | firedTimer | firedTcp => cases hw

/-- The fields and the expiry of a timer other than the one that is fired. -/
theorem other_of_fired (hs : s.Inv) {u : ℕ} (hne : t ≠ u) (o o' : Option Timer) :
    Function.update (Function.update s.timer u o) u o' t = s.timer t ∧
      (s.erase (.timer u)).timers.armed (.timer t) = s.timers.armed (.timer t) := by
  rw [Function.update_of_ne hne, Function.update_of_ne hne, armed_erase hs,
    Function.update_of_ne fun heq ↦ hne (NodeRef.timer.inj heq)]
  exact ⟨rfl, rfl⟩

/-- After a turn and the callback that it invokes the timer is due again: it has been put back, or
it was not the one that was fired. -/
theorem Busy.callbackReturn {s₁ s₂ : TimerLoop} (h : Busy t s)
    (hE : EffectBy timeAdd64 s .processTurn s₁) (hw : s₁.control ≠ .waiting)
    (hE₂ : EffectBy timeAdd64 s₁ (.callbackReturn clock) s₂) (hinv₂ : s₂.Inv)
    (hc₂ : s₂.control = .processing) : Busy t s₂ := by
  have hs := h.inv
  cases hE with
  | processed => exact absurd rfl hw
  | @firedTcp e write tv hc harmed hexp hmin =>
    have hne : NodeRef.timer t ≠ .tcp e write := nofun
    have harmed₁ := congrFun (armed_erase hs (.tcp e write)) (.timer t)
    rw [Function.update_of_ne hne] at harmed₁
    cases hE₂ with
    | tcpReturn => exact h.congr hinv₂ hc₂ rfl rfl harmed₁
    | returnDeleted hc' | returned hc' | reinserted hc' => cases hc'
  | @firedTimer u τ tv hc harmed hexp hmin hτ hdel =>
    have hself : Function.update s.timer u (some { τ with invokingCallback := true }) u = _ :=
      Function.update_self ..
    have harmed₁ := armed_erase hs (.timer u)
    cases hE₂ with
    | tcpReturn hc' => cases hc'
    | @returnDeleted v σ _ hc' hσ hdel' =>
      obtain rfl := Control.timerCallback.inj hc'
      obtain rfl := Option.some.inj (hself.symm.trans hσ)
      exact absurd hdel' (Bool.eq_false_iff.mp hdel)
    | @returned v σ _ hc' hσ hdel' hre =>
      obtain rfl := Control.timerCallback.inj hc'
      obtain rfl := Option.some.inj (hself.symm.trans hσ)
      by_cases hut : t = u
      · subst hut
        obtain ⟨τ₀, hτ₀, hrep₀, -⟩ := h.repeats
        obtain rfl := Option.some.inj (hτ₀.symm.trans hτ)
        have hnone := (congrFun harmed₁ (.timer t)).trans (Function.update_self ..)
        exact absurd (reinserts_of_armed_eq_none hdel' hrep₀ hnone) (Bool.eq_false_iff.mp hre)
      · obtain ⟨htimer, harmed⟩ := other_of_fired hs hut _ _
        exact h.congr hinv₂ hc₂ rfl htimer harmed
    | @reinserted v σ _ hc' hσ hdel' hrep hn hre =>
      obtain rfl := Control.timerCallback.inj hc'
      obtain rfl := Option.some.inj (hself.symm.trans hσ)
      have harmed₂ := armed_pushLast (hs.erase (.timer u)).heap hn
        (timeAdd64 (s.loopNow clock) τ.after) (s.erase (.timer u)).timers.capacity
      by_cases hut : t = u
      · subst hut
        obtain ⟨τ₀, hτ₀, hrep₀, hle₀⟩ := h.repeats
        obtain rfl := Option.some.inj (hτ₀.symm.trans hτ)
        refine ⟨hinv₂, hc₂, h.now, ⟨_, Function.update_self .., hrep₀, hle₀⟩, _,
          (congrFun harmed₂ (.timer t)).trans (Function.update_self ..), ?_⟩
        rw [loopNow, if_pos (Timeval.ne_zero_iff.mp h.now)]
        exact hle₀
      · obtain ⟨htimer, harmed⟩ := other_of_fired hs hut _ _
        refine h.congr hinv₂ hc₂ rfl htimer ((congrFun harmed₂ (.timer t)).trans ?_)
        rw [Function.update_of_ne fun heq ↦ hut (NodeRef.timer.inj heq)]
        exact harmed

theorem Busy.turn (h : Busy t s) (clock : Timeval.Reading) :
    ∃ s', step64 s.processTurn (.callbackReturn clock) = some s' ∧ Busy t s' := by
  have hE : EffectBy timeAdd64 s .processTurn s.processTurn := processTurn_effect h.inv h.control
  have hinv := hE.inv Timeval.Proper.timeAdd64 h.inv
  rcases turn_cases h.inv h.control with hw | ⟨hw, -, hret⟩
  · exact absurd hw h.control_processTurn
  · obtain ⟨s', hstep, hc', -⟩ := hret clock
    have hE₂ := step64_effect hinv hstep
    exact ⟨s', hstep, h.callbackReturn hE hw hE₂ (inv_of_step64 hinv hstep) hc'⟩

/-- **The loop does not end** when a timer that has expired is due again once it has been put
back. -/
theorem Busy.timersProcess_eq_none (clocks : ℕ → Timeval.Reading) (fuel : ℕ) :
    ∀ {s : TimerLoop}, Busy t s → s.timersProcess clocks fuel = none := by
  induction fuel with
  | zero => exact fun _ ↦ rfl
  | succ fuel ih =>
    intro s h
    obtain ⟨s', hstep, h'⟩ := h.turn (clocks fuel)
    rw [timersProcess, if_neg h.control_processTurn, hstep, Option.bind_some]
    exact ih h'

/-- An interval of zero leads to the cached clock itself, and one that does not fit to the distant
past. -/
theorem InRange.timeAdd64_le_now (hr : s.InRange) (hs : s.Inv) (hτ : s.timer t = some τ)
    (hbusy : τ.after = ⟨0, 0⟩ ∨ timeAddFits s.now τ.after = false) :
    (timeAdd64 s.now τ.after).key ≤ s.now.key := by
  have hafter := hs.after t τ hτ
  by_cases hfits : timeAddFits s.now τ.after = true
  · have hzero : τ.after = ⟨0, 0⟩ :=
      hbusy.resolve_right fun hnot ↦ Bool.false_ne_true (hnot.symm.trans hfits)
    rw [timeAdd64_eq hs.now hafter hfits, hzero,
      Timeval.key_le_iff_micros (hs.now.proper.timeAdd (by decide)) hs.now.proper, micros_timeAdd]
    exact (add_zero _).le
  · have hneg := timeAdd64_neg hs.now hafter hr.1 (hr.2 t τ hτ) (Bool.eq_false_iff.mpr hfits)
    exact Timeval.key_le_iff.mpr (Or.inl (hneg.trans_le hs.now.1))

theorem InRange.busy (hr : s.InRange) (hs : s.Inv) (hc : s.control = .processing)
    (hnow : s.now ≠ ⟨0, 0⟩) {clocks : ℕ → Timeval.Reading} (h : ¬s.NoBusyRepeat clocks) :
    ∃ t, Busy t s := by
  have hloopNow : ∀ c, s.loopNow c = s.now := fun c ↦ if_pos (Timeval.ne_zero_iff.mp hnow)
  simp only [NoBusyRepeat, hloopNow, not_forall] at h
  obtain ⟨t, tv, τ, harmed, hdue, hτ, hrep, hbusy⟩ := h
  refine ⟨t, hs, hc, hnow, ⟨τ, hτ, hrep, hr.timeAdd64_le_now hs hτ ?_⟩, tv, harmed, hdue⟩
  by_contra hnot
  rw [not_or, Bool.not_eq_false] at hnot
  exact hbusy ⟨hnot.1, fun _ ↦ hnot.2⟩

/-- **When a call returns.** If no repeating timer that has expired has an interval of zero or one
that does not fit, the call returns and invokes no callback twice. If there is such a timer, and the
cached clock is not zero, no number of turns is enough. -/
theorem timersProcess_returns (clocks : ℕ → Timeval.Reading) (hs : s.Inv)
    (hc : s.control = .processing) :
    (s.NoBusyRepeat clocks → ∀ fuel, s.timers.size < fuel →
      ∃ (s' : TimerLoop) (fired : List NodeRef),
        s.timersProcess clocks fuel = some s' ∧ s'.control = .waiting ∧
        s'.log = fired.map .fired ++ s.log ∧ fired.Nodup ∧
        ∀ n ∈ fired, s.timers.timerNodeActive n = true) ∧
      (s.InRange → s.now ≠ ⟨0, 0⟩ → ¬s.NoBusyRepeat clocks →
        ∀ fuel, s.timersProcess clocks fuel = none) := by
  refine ⟨fun hquiet fuel hfuel ↦ ?_, fun hr hnow hbusy fuel ↦ ?_⟩
  · obtain ⟨s', l, heq, hw, h⟩ :=
      (Quiet.begin hs hc).timersProcess hs clocks (hquiet.rearmsLater hs) fuel hc hfuel
    refine ⟨s', l.reverse, heq, hw, ?_, List.nodup_reverse.mpr h.nodup, fun n hn ↦ ?_⟩
    · rw [List.map_reverse]
      exact h.log
    · obtain ⟨tv, harmed, -⟩ := h.due n (List.mem_reverse.mp hn)
      exact mem_activeNodes.mp (armed_eq_some_iff.mp harmed).1
  · obtain ⟨t, h⟩ := hr.busy hs hc hnow hbusy
    exact h.timersProcess_eq_none clocks fuel

theorem timersProcess_returns_dueTimers :
    ∃ (s' : TimerLoop) (fired : List NodeRef),
      dueTimers.timersProcess (fun _ ↦ .ofSec 110) 4 = some s' ∧
      s'.control = .waiting ∧ s'.log = fired.map .fired ++ dueTimers.log ∧ fired.Nodup ∧
      ∀ n ∈ fired, dueTimers.timers.timerNodeActive n = true := by
  refine (timersProcess_returns (fun _ ↦ .ofSec 110) (inv_of_reachable dueTimers_reachable)
    (by decide +kernel)).1 (fun t tv τ _ _ hτ hrep ↦ ?_) 4 (by decide +kernel)
  rw [dueTimers_timer t τ hτ hrep]
  have hfits : timeAddFits (dueTimers.loopNow (.ofSec 110)) ⟨5, 0⟩ = true := by decide +kernel
  exact ⟨by decide, fun _ ↦ hfits⟩

/-- A timer with the given interval is armed at 100 seconds, and has expired in the run. -/
def armBusy (after : Timeval) : List Action :=
  [.timerNew 0, .timerAdd 0 after true 0 (.ofSec 100) true, .runEnter (.ofSec 100),
    .updateTime (.ofSec 100)]

def busyTimer (after : Timeval) : TimerLoop := (exec step64 anyStep init (armBusy after)).getD init

theorem busyTimer_never_returns {after : Timeval} (tv : Timeval)
    (hexec : exec step64 anyStep init (armBusy after) = some (busyTimer after))
    (hc : (busyTimer after).control = .processing) (hnow : (busyTimer after).now = ⟨100, 0⟩)
    (hτ : (busyTimer after).timer 0 = some ⟨false, false, after, true, 0⟩)
    (hle : (timeAdd64 ⟨100, 0⟩ after).key ≤ Timeval.key ⟨100, 0⟩)
    (harmed : (busyTimer after).timers.armed (.timer 0) = some tv)
    (hdue : tv.key ≤ Timeval.key ⟨100, 0⟩) :
    ∃ s, Reachable step64 anyStep init s ∧ s.control = .processing ∧
      s.timer 0 = some ⟨false, false, after, true, 0⟩ ∧
      ∀ clocks fuel, s.timersProcess clocks fuel = none := by
  have hreach : Reachable step64 anyStep init (busyTimer after) := Reachable.of_exec hexec
  have h : Busy 0 (busyTimer after) := by
    refine ⟨inv_of_reachable64 hreach, hc, by rw [hnow]; decide, ?_, tv, harmed, ?_⟩
    · exact ⟨_, hτ, rfl, by rw [hnow]; exact hle⟩
    · rwa [hnow]
  exact ⟨_, hreach, hc, hτ, fun clocks fuel ↦ h.timersProcess_eq_none clocks fuel⟩

/-- `nanoev_timer_add` accepts a delay of zero for a repeating timer, and one of `2 ^ 63 - 1`
seconds; `timers_process` then fires the timer without end. -/
theorem exists_timersProcess_never_returns :
    (∃ s, Reachable step64 anyStep init s ∧ s.control = .processing ∧
      s.timer 0 = some ⟨false, false, ⟨0, 0⟩, true, 0⟩ ∧
      ∀ clocks fuel, s.timersProcess clocks fuel = none) ∧
    ∃ s, Reachable step64 anyStep init s ∧ s.control = .processing ∧
      s.timer 0 = some ⟨false, false, ⟨2 ^ 63 - 1, 0⟩, true, 0⟩ ∧
      ∀ clocks fuel, s.timersProcess clocks fuel = none := by
  refine ⟨busyTimer_never_returns ⟨100, 0⟩ rfl ?_ ?_ ?_ ?_ ?_ ?_,
    busyTimer_never_returns ⟨-2 ^ 63 + 99, 0⟩ rfl ?_ ?_ ?_ ?_ ?_ ?_⟩
  all_goals decide +kernel

end TimerLoop

end Nanoev
