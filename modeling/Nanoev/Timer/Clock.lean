import Nanoev.Timer.LoopInvariant

/-!
# Timers and the clock

The loop keeps a cached clock. When the system clock is found to have gone backward,
`__update_time` moves every expiry in the heap back by the same amount, so that the distance of an
expiry from the cached clock only shrinks when the clock moves forward. `Tracks` states this for
each node armed during the current run: its distance is what is left of the delay it was armed with
after the forward movement since.

A record of an arming is made when a node enters the heap, with the delay it is armed with, and it
goes with the node, which is fired or taken out by the client (`Traced`). As `timers_process`
returns when no delay has passed, the armings that were due when it began have been fired by then,
and no others.

The shift is guarded by the assertions of `time_sub`, which fail for an expiry that lies before the
amount it is moved by. That does not happen at the head of an iteration, because `timers_process`
leaves no expiry before the cached clock (`Settled`).
-/

namespace Nanoev

open Transition

/-- From the end of `timers_process` to the next `__update_time`. -/
def Control.afterTimers : Control → Bool
  | .waiting | .polling | .updating => true
  | _ => false

/-- Inside `timers_process`, or inside a callback that it has called. -/
def Control.inTimersProcess : Control → Bool
  | .processing | .timerCallback _ | .tcpCallback => true
  | _ => false

namespace TimerLoop

open TimerMinHeap

variable {s s' : TimerLoop}

/-- The reading of the clock that comes with an action is not zero. -/
def clockNonzero (_ : TimerLoop) : Action → Bool
  | .timerAdd _ _ _ _ clock _ | .tcpTimeoutAdd _ _ _ clock _ | .runEnter clock | .updateTime clock
  | .callbackReturn clock => clock.1 ≠ ⟨0, 0⟩
  | _ => true

/-- The action does not begin or end a run of the loop. -/
def Action.withinRun : Action → Bool
  | .runEnter _ | .runExit => false
  | _ => true

def Action.deletes (n : NodeRef) : Action → Bool
  | .timerDel t | .timerFree t => decide (n = .timer t)
  | .tcpTimeoutDel e write => decide (n = .tcp e write)
  | _ => false

/-- The delay with which an action arms the node, if it succeeds. -/
def armsWith (s : TimerLoop) (n : NodeRef) : Action → Option Timeval
  | .timerAdd t after _ _ _ _ => if n = .timer t then some after else none
  | .tcpTimeoutAdd e write after _ _ => if n = .tcp e write then some after else none
  | .callbackReturn _ =>
    match s.control with
    | .timerCallback t => if n = .timer t then (s.timer t).map Timer.after else none
    | _ => none
  | _ => none

/-- What a step within a run does to a node: it leaves it in the heap or out of it, with its record,
it fires it, the client deletes it, or it arms the node, which was not in the heap. -/
inductive Traced (s : TimerLoop) (a : Action) (s' : TimerLoop) (n : NodeRef) : Prop
  | kept (harming : s'.arming n = s.arming n)
      (hactive : s'.timers.timerNodeActive n = s.timers.timerNodeActive n)
      (hlog : s'.log.count (.fired n) = s.log.count (.fired n))
  | fired (ha : a = .processTurn) (hlog : s'.log = .fired n :: s.log)
  | deleted (ha : a.deletes n = true) (hlog : s'.log.count (.fired n) = s.log.count (.fired n))
  | armed {d : Timeval} (ha : s.armsWith n a = some d)
      (hinactive : s.timers.timerNodeActive n = false)
      (harming : s'.arming n = some ⟨d.micros, s.elapsed⟩)
      (hlog : s'.log.count (.fired n) = s.log.count (.fired n))

/-- The expiry of the node lies as far ahead of the cached clock as is left of its delay. -/
def Remaining (s : TimerLoop) (n : NodeRef) (a : Arming) : Prop :=
  ∃ tv, s.timers.armed n = some tv ∧
    tv.micros - s.now.micros = a.delay - (s.elapsed - a.since)

/-- The nodes armed during the current run follow the clock. -/
structure Tracks (s : TimerLoop) : Prop where
  remaining : ∀ n a, s.arming n = some a → s.Remaining n a
  nonzero : s.control ≠ .idle → s.now.sec ≠ 0 ∨ s.now.usec ≠ 0

theorem init_tracks : init.Tracks := ⟨nofun, fun h ↦ absurd rfl h⟩

theorem Tracks.of_eq (ht : s.Tracks) (hnow : s'.now = s.now) (helapsed : s'.elapsed = s.elapsed)
    (hcontrol : s'.control ≠ .idle → s.control ≠ .idle)
    (harming : ∀ n a, s'.arming n = some a →
      s.arming n = some a ∧ s'.timers.armed n = s.timers.armed n) : s'.Tracks := by
  refine ⟨fun n a h ↦ ?_, fun hc ↦ ?_⟩
  · obtain ⟨h₀, heq⟩ := harming n a h
    rw [Remaining, heq, hnow, helapsed]
    exact ht.remaining n a h₀
  · rw [hnow]
    exact ht.nonzero (hcontrol hc)

theorem arming_erase (hs : s.Inv) (n : NodeRef) {m : NodeRef} {a : Arming}
    (h : (s.erase n).arming m = some a) :
    s.arming m = some a ∧ (s.erase n).timers.armed m = s.timers.armed m := by
  change Function.update s.arming n none m = some a at h
  rw [Function.update_apply] at h
  split_ifs at h with heq
  refine ⟨h, (congrFun (armed_minHeapErase hs.heap n) m).trans ?_⟩
  rw [Function.update_of_ne heq]

theorem Tracks.erase (ht : s.Tracks) (hs : s.Inv) (n : NodeRef) : (s.erase n).Tracks :=
  ht.of_eq rfl rfl id fun _ _ h ↦ arming_erase hs n h

theorem Tracks.loopNow_eq (ht : s.Tracks) (hc : s.control ≠ .idle) (clock : Timeval.Reading) :
    s.loopNow clock = s.now := if_pos (ht.nonzero hc)

theorem Tracks.arm (ht : s.Tracks) (hs : s.Inv) {n : NodeRef} (hn : n ∉ s.timers.activeNodes)
    {after expires : Timeval} (capacity : ℕ)
    (hexpires : s.control ≠ .idle → expires = timeAdd s.now after) :
    (s.arm n after expires capacity).Tracks := by
  refine ⟨fun m a h ↦ ?_, ht.nonzero⟩
  change Function.update s.arming n _ m = some a at h
  rw [Remaining, armed_arm hs hn]
  by_cases heq : m = n
  · subst heq
    rw [Function.update_self] at h ⊢
    split_ifs at h with hc
    obtain rfl := Option.some.inj h
    refine ⟨expires, rfl, ?_⟩
    rw [hexpires hc, micros_timeAdd, arm_now, arm_elapsed]
    ring
  · rw [Function.update_of_ne heq] at h ⊢
    exact ht.remaining m a h

theorem Tracks.updateTime (ht : s.Tracks) (hs : s.Inv) {tv : Timeval.Reading}
    (htv : tv.1 ≠ ⟨0, 0⟩) : (s.updateTime tv).Tracks := by
  refine ⟨fun n a h ↦ ?_, fun _ ↦ ?_⟩
  · rw [(updateTime_frame s tv).2.2.2] at h
    obtain ⟨e, harmed, heq⟩ := ht.remaining n a h
    refine ⟨shifted s.now tv.1 e, by rw [armed_updateTime hs, harmed, Option.map_some], ?_⟩
    rw [micros_shifted hs.now.proper tv.2.proper]
    change _ - tv.1.micros = a.delay - (s.elapsed + max 0 (tv.1.micros - s.now.micros) - a.since)
    -- one of the two maxima is zero: the clock has moved one way
    rcases le_total s.now.micros tv.1.micros with hle | hle
    · rw [max_eq_left (by omega), max_eq_right (by omega)]
      omega
    · rw [max_eq_right (by omega), max_eq_left (by omega)]
      omega
  · exact Timeval.ne_zero_iff.mp htv

theorem Inv.expiryAsserted_eq (hs : s.Inv) {after : Timeval} (hafter : after.Normalized)
    (clock : Timeval.Reading) : s.expiryAsserted after clock = s := by
  unfold TimerLoop.expiryAsserted
  rw [(hs.loopNow_proper clock).timeAddAsserts hafter.proper, assert_true]

/-- **One step.** Every step with a reading of the clock that is not zero keeps the nodes on the
clock. -/
theorem Effect.tracks (hs : s.Inv) (ht : s.Tracks) {a : Action} (hok : s.clockNonzero a = true)
    (h : Effect s a s') : s'.Tracks := by
  cases h with
  | timerNew hnone =>
    refine ht.of_eq rfl rfl id fun n a h ↦ ⟨h, ?_⟩
    exact congrFun (armed_timerNodeInit hs.heap (hs.not_mem_of_none hnone)) n
  | addRefused | delRefused => exact ht
  | addFailed hτ hdel hn hafter hcap halloc | tcpAddFailed hn hafter =>
    exact ht.of_eq rfl rfl id fun n a h ↦ ⟨h, congrFun (armed_setTimeout hn _) n⟩
  | @added t τ after repeats callback clock alloc capacity hτ hdel hn hafter hcap =>
    have h₁ := hs.setTimer hτ { τ with after, repeats, callback } hafter rfl (Or.inl rfl)
    have ht₁ : (s.setTimer t (some { τ with after, repeats, callback })).Tracks :=
      ht.of_eq rfl rfl id fun n a h ↦ ⟨h, rfl⟩
    rw [h₁.expiryAsserted_eq hafter]
    have harm := ht₁.arm h₁ hn capacity fun hc ↦
      congrArg (timeAdd · after) (ht.loopNow_eq hc clock)
    exact harm.of_eq rfl rfl id fun n a h ↦ ⟨h, rfl⟩
  | delInvoking hτ hdel hinv | tcpAddRefused hafter =>
    exact ht.of_eq rfl rfl id fun n a h ↦ ⟨h, rfl⟩
  | deleted hτ hinv | freeInvoking hτ hdel hinv | freed hτ hinv =>
    exact (ht.erase hs _).of_eq rfl rfl id fun n a h ↦ ⟨h, rfl⟩
  | @tcpAdded e write after clock alloc capacity hn hafter hcap =>
    rw [hs.expiryAsserted_eq hafter]
    exact ht.arm hs hn capacity fun hc ↦ congrArg (timeAdd · after) (ht.loopNow_eq hc clock)
  | tcpDel => exact ht.erase hs _
  | @runEnter clock hc =>
    -- the records of armings begin anew with each run
    exact ⟨nofun, fun _ ↦ Timeval.ne_zero_iff.mp (of_decide_eq_true hok)⟩
  | @updateTime clock hc =>
    have htv := ht.updateTime hs (of_decide_eq_true hok)
    refine htv.of_eq rfl rfl (fun _ ↦ ?_) fun n a h ↦ ⟨h, rfl⟩
    rw [(updateTime_frame s clock).1, hc]
    exact nofun
  | processed hc hnone | returnDeleted hc hτ hdel | returned hc hτ hdel hre | tcpReturn hc
  | poll hc | nextIteration hc | runExit hc =>
    exact ht.of_eq rfl rfl (fun _ ↦ hc ▸ nofun) fun n a h ↦ ⟨h, rfl⟩
  | firedTimer hc harmed hexp hmin hτ hdel | firedTcp hc harmed hexp hmin =>
    exact (ht.erase hs _).of_eq rfl rfl (fun _ ↦ hc ▸ nofun) fun n a h ↦ ⟨h, rfl⟩
  | @reinserted t τ clock hc hτ hdel hrep hn hre =>
    have h₁ := hs.leaveCallback hc hτ
    have hidle : s.control ≠ .idle := hc ▸ nofun
    have ht₁ : Tracks { s.setTimer t (some { τ with invokingCallback := false }) with
        control := .processing } := ht.of_eq rfl rfl (fun _ ↦ hidle) fun n a h ↦ ⟨h, rfl⟩
    rw [h₁.expiryAsserted_eq (hs.after t τ hτ)]
    exact ht₁.arm h₁ hn _ fun _ ↦ congrArg (timeAdd · τ.after) (ht.loopNow_eq hidle clock)

/-! ## Firing -/

theorem Tracks.timeout_eq (ht : s.Tracks) {n : NodeRef} {a : Arming} (h : s.arming n = some a) :
    s.timers.timerNodeActive n = true ∧
      (s.timers.node n).timeout.micros - s.now.micros = a.delay - (s.elapsed - a.since) := by
  obtain ⟨tv, harmed, heq⟩ := ht.remaining n a h
  obtain ⟨hmem, rfl⟩ := armed_eq_some_iff.mp harmed
  exact ⟨mem_activeNodes.mp hmem, heq⟩

/-- A node has expired exactly when the clock has moved forward by its delay. -/
theorem Tracks.expired_iff (ht : s.Tracks) (hs : s.Inv) {n : NodeRef} {a : Arming}
    (h : s.arming n = some a) {tv : Timeval} (harmed : s.timers.armed n = some tv) :
    tv.key ≤ s.now.key ↔ a.delay ≤ s.elapsed - a.since := by
  obtain ⟨tv', harmed', heq⟩ := ht.remaining n a h
  obtain rfl := Option.some.inj (harmed.symm.trans harmed')
  rw [Timeval.key_le_iff_micros (hs.proper n tv harmed) hs.now.proper]
  omega

theorem Effect.due_of_fired (hs : s.Inv) (ht : s.Tracks) (h : Effect s .processTurn s')
    {n : NodeRef} (hlog : s'.log = .fired n :: s.log) {a : Arming} (ha : s.arming n = some a) :
    a.delay ≤ s.elapsed - a.since := by
  obtain ⟨tv, harmed, hexp⟩ := h.armed_of_fired hlog
  exact (ht.expired_iff hs ha harmed).mp hexp

theorem Effect.not_due_of_waiting (hs : s.Inv) (ht : s.Tracks) (h : Effect s .processTurn s')
    (hc : s'.control = .waiting) {n : NodeRef} {a : Arming} (ha : s'.arming n = some a) :
    s'.elapsed - a.since < a.delay := by
  cases h with
  | processed _ hnone =>
    obtain ⟨tv, harmed, -⟩ := ht.remaining n a ha
    refine not_le.mp fun hdue ↦ ?_
    exact absurd (hnone n tv harmed) (not_lt.mpr ((ht.expired_iff hs ha harmed).mpr hdue))
  | firedTimer hc' harmed hexp hmin hτ hdel | firedTcp hc' harmed hexp hmin => cases hc

/-! ## From arming to firing -/

section Traced

variable {a : Action} {n m : NodeRef}

theorem Traced.of_eq (harming : s'.arming n = s.arming n)
    (harmed : s'.timers.armed n = s.timers.armed n)
    (hlog : s'.log.count (.fired n) = s.log.count (.fired n)) : s.Traced a s' n :=
  .kept harming (by rw [timerNodeActive_eq, timerNodeActive_eq, harmed]) hlog

theorem Traced.of_erase (ha : a.deletes m = true)
    (harming : s'.arming = Function.update s.arming m none)
    (harmed : s'.timers.armed = Function.update s.timers.armed m none)
    (hlog : s'.log.count (.fired n) = s.log.count (.fired n)) : s.Traced a s' n := by
  by_cases hnm : n = m
  · exact .deleted (hnm ▸ ha) hlog
  · refine .of_eq ?_ ?_ hlog
    · rw [harming, Function.update_of_ne hnm]
    · rw [harmed, Function.update_of_ne hnm]

theorem Traced.of_arm {d e : Timeval} (hm : m ∉ s.timers.activeNodes)
    (ha : s.armsWith m a = some d)
    (harming : s'.arming = Function.update s.arming m (some ⟨d.micros, s.elapsed⟩))
    (harmed : s'.timers.armed = Function.update s.timers.armed m (some e))
    (hlog : s'.log.count (.fired n) = s.log.count (.fired n)) : s.Traced a s' n := by
  by_cases hnm : n = m
  · subst hnm
    refine .armed ha ?_ ?_ hlog
    · rw [timerNodeActive_eq, armed_eq_none_iff.mpr hm, Option.isSome_none]
    · rw [harming, Function.update_self]
  · refine .of_eq ?_ ?_ hlog
    · rw [harming, Function.update_of_ne hnm]
    · rw [harmed, Function.update_of_ne hnm]

theorem Traced.of_fire (harming : s'.arming = Function.update s.arming m none)
    (harmed : s'.timers.armed = Function.update s.timers.armed m none)
    (hlog : s'.log = .fired m :: s.log) : s.Traced .processTurn s' n := by
  by_cases hnm : n = m
  · exact .fired rfl (hnm ▸ hlog)
  · refine .of_eq ?_ ?_ ?_
    · rw [harming, Function.update_of_ne hnm]
    · rw [harmed, Function.update_of_ne hnm]
    · rw [hlog, List.count_cons_of_ne fun h ↦ hnm (TimerObs.fired.inj h).symm]

end Traced

theorem recordArming_of_running {x : TimerLoop} (hc : x.control ≠ .idle) (n : NodeRef)
    (after : Timeval) :
    (x.recordArming n after).arming =
      Function.update x.arming n (some ⟨after.micros, x.elapsed⟩) := by
  rw [recordArming, if_neg hc]

/-- **One step within a run**, for every node. -/
theorem Effect.traced (hs : s.Inv) (hc : s.control ≠ .idle) {a : Action}
    (hrun : a.withinRun = true) (h : Effect s a s') (n : NodeRef) : s.Traced a s' n := by
  cases h with
  | timerNew hnone =>
    exact .of_eq rfl (congrFun (armed_timerNodeInit hs.heap (hs.not_mem_of_none hnone)) n) rfl
  | addRefused | delRefused | tcpAddRefused hafter | processed hc hnone
  | returnDeleted hc hτ hdel | returned hc hτ hdel hre | tcpReturn hc | poll hc
  | nextIteration hc => exact .of_eq rfl rfl rfl
  | addFailed hτ hdel hn | tcpAddFailed hn hafter =>
    exact .of_eq rfl (congrFun (armed_setTimeout hn _) n) rfl
  | @added t τ after repeats callback clock alloc capacity hτ hdel hn hafter hcap =>
    refine .of_arm hn (if_pos rfl) (recordArming_of_running hc _ _)
      (armed_pushLast hs.heap hn _ capacity) ?_
    exact List.count_cons_of_ne (by simp)
  | delInvoking hτ hdel hinv => exact .of_eq rfl rfl (List.count_cons_of_ne (by simp))
  | deleted hτ hinv =>
    refine .of_erase (decide_eq_true rfl) rfl (armed_erase hs _) ?_
    exact List.count_cons_of_ne (by simp)
  | freeInvoking hτ hdel hinv | freed hτ hinv | tcpDel =>
    exact .of_erase (decide_eq_true rfl) rfl (armed_erase hs _) rfl
  | @tcpAdded e write after clock alloc capacity hn hafter hcap =>
    exact .of_arm hn (if_pos rfl) (recordArming_of_running hc _ _)
      (armed_pushLast hs.heap hn _ capacity) rfl
  | runEnter hidle | runExit hc => cases hrun
  | @updateTime clock hc =>
    refine .kept ?_ ?_ ?_
    · exact congrFun (updateTime_frame s clock).2.2.2 n
    · show (s.updateTime clock).timers.timerNodeActive n = _
      rw [timerNodeActive_eq, timerNodeActive_eq, armed_updateTime hs, Option.isSome_map]
    · exact congrArg (List.count _) (updateTime_frame s clock).2.2.1
  | firedTimer hc harmed hexp hmin hτ hdel | firedTcp hc harmed hexp hmin =>
    exact .of_fire rfl (armed_erase hs _) rfl
  | @reinserted t τ clock hcb hτ hdel hrep hn hre =>
    have harms : s.armsWith (.timer t) (.callbackReturn clock) = some τ.after := by
      simp only [armsWith, hcb, hτ, if_true, Option.map_some]
    refine .of_arm hn harms (recordArming_of_running ?_ _ _) (armed_pushLast hs.heap hn _ _) rfl
    intro hidle
    cases hidle

theorem Effect.running {a : Action} (hrun : a.withinRun = true) (hc : s.control ≠ .idle)
    (h : Effect s a s') : s'.control ≠ .idle := by
  cases h with
  | runEnter _ | runExit _ => cases hrun
  | updateTime _ | processed _ _ | firedTimer | firedTcp | returnDeleted | returned | reinserted
  | tcpReturn | poll | nextIteration =>
    intro hidle
    cases hidle
  | _ => exact hc

theorem Effect.elapsed_eq {a : Action} (hrun : a.withinRun = true)
    (hc : s.control.inTimersProcess = true) (h : Effect s a s') : s'.elapsed = s.elapsed := by
  cases h with
  | runEnter _ => cases hrun
  | updateTime hu =>
    rw [hu] at hc
    cases hc
  | _ => rfl

theorem Effect.eq_processTurn {a : Action} (hc : s.control.inTimersProcess = true)
    (h : Effect s a s') (hw : s'.control = .waiting) : a = .processTurn := by
  cases h with
  | processed _ _ => rfl
  | runEnter _ | updateTime _ | firedTimer | firedTcp | returnDeleted | returned | reinserted
  | tcpReturn | poll | nextIteration | runExit => cases hw
  | _ =>
    have hw : s.control = .waiting := hw
    rw [hw] at hc
    cases hc

/-- One `timers_process`, with what the callbacks do, as long as the client does not delete `n`. -/
def processing (n : NodeRef) (s : TimerLoop) (a : Action) : Prop :=
  (s.clockNonzero a = true ∧ a.withinRun = true) ∧ s.control.inTimersProcess = true ∧
    a.deletes n = false

instance (n : NodeRef) (s : TimerLoop) (a : Action) : Decidable (processing n s a) :=
  inferInstanceAs (Decidable ((_ ∧ _) ∧ _ ∧ _))

/-- How far `timers_process` is with the node `n`, which was armed with the record `r` when the
state was `s₀`. -/
structure Served (s₀ : TimerLoop) (n : NodeRef) (r : Arming) (s : TimerLoop) : Prop where
  inv : s.Inv
  tracks : s.Tracks
  running : s.control ≠ .idle
  elapsed : s.elapsed = s₀.elapsed
  record : s.arming n = some r ∧ s.log.count (.fired n) = s₀.log.count (.fired n) ∨
    r.delay ≤ s₀.elapsed - r.since ∧ s₀.log.count (.fired n) < s.log.count (.fired n)
  returned : s.control = .waiting → ∀ r', s.arming n = some r' → s.elapsed - r'.since < r'.delay

theorem Served.step {s₀ : TimerLoop} {n : NodeRef} {r : Arming} {a : Action} (h : Served s₀ n r s)
    (ha : processing n s a) (hstep : step s a = some s') : Served s₀ n r s' := by
  obtain ⟨⟨hclock, hrun⟩, hin, hdel⟩ := ha
  have hE := step_effect h.inv hstep
  refine ⟨hE.inv h.inv, hE.tracks h.inv h.tracks hclock, hE.running hrun h.running,
    (hE.elapsed_eq hrun hin).trans h.elapsed, ?_, fun hw r' hr' ↦ ?_⟩
  · cases hE.traced h.inv h.running hrun n with
    | kept harming hactive hlog =>
      rw [harming, hlog]
      exact h.record
    | fired hturn hlog =>
      subst hturn
      right
      rw [hlog, List.count_cons_self]
      rcases h.record with ⟨harming, hcount⟩ | ⟨hdue, hcount⟩
      · have hdue := hE.due_of_fired h.inv h.tracks hlog harming
        rw [h.elapsed] at hdue
        exact ⟨hdue, by omega⟩
      · exact ⟨hdue, by omega⟩
    | deleted hdeletes hlog =>
      rw [hdel] at hdeletes
      cases hdeletes
    | armed harms hinactive harming hlog =>
      rw [hlog]
      rcases h.record with ⟨hold, -⟩ | hfired
      · have hactive := (h.tracks.timeout_eq hold).1
        rw [hinactive] at hactive
        cases hactive
      · exact .inr hfired
  · obtain rfl := hE.eq_processTurn hin hw
    exact hE.not_due_of_waiting h.inv h.tracks hw hr'

/-- **One `timers_process`** fires an armed node if and only if the delay has passed. -/
theorem fired_iff_due {n : NodeRef} {r : Arming} {bs : List Action} (hs : s.Inv) (ht : s.Tracks)
    (hc : s.control = .processing) (hr : s.arming n = some r)
    (hrun : Run step (processing n) s bs s') (hw : s'.control = .waiting) :
    s.log.count (.fired n) < s'.log.count (.fired n) ↔ r.delay ≤ s.elapsed - r.since := by
  have hbegin : Served s n r s := by
    refine ⟨hs, ht, by simp [hc], rfl, .inl ⟨hr, rfl⟩, fun hw ↦ ?_⟩
    rw [hc] at hw
    cases hw
  have hend : Served s n r s' :=
    hrun.invariant (I := Served s n r) (fun x a x' hx ha hstep ↦ hx.step ha hstep) hbegin
  rcases hend.record with ⟨hr', hcount⟩ | ⟨hdue, hcount⟩
  · have hnot := hend.returned hw r hr'
    rw [hend.elapsed] at hnot
    omega
  · exact iff_of_true hcount hdue

/-! ## The assertions -/

/-- After `timers_process` no expiry lies before the cached clock. -/
def Settled (s : TimerLoop) : Prop :=
  s.control.afterTimers = true → ∀ n tv, s.timers.armed n = some tv → s.now.micros ≤ tv.micros

theorem Settled.of_armed (hset : s.Settled) (hnow : s'.now = s.now)
    (hcontrol : s'.control.afterTimers = true → s.control.afterTimers = true)
    (harmed : ∀ n tv, s'.timers.armed n = some tv → s.timers.armed n = some tv) : s'.Settled := by
  intro hc n tv h
  rw [hnow]
  exact hset (hcontrol hc) n tv (harmed n tv h)

theorem Settled.erase (hset : s.Settled) (hs : s.Inv) (n : NodeRef) : (s.erase n).Settled := by
  refine hset.of_armed rfl id fun m tv h ↦ ?_
  rw [armed_erase hs, Function.update_apply] at h
  split_ifs at h
  exact h

theorem Settled.arm (hset : s.Settled) (hs : s.Inv) (ht : s.Tracks) {n : NodeRef}
    (hn : n ∉ s.timers.activeNodes) {after : Timeval} (hafter : after.Normalized)
    (clock : Timeval.Reading) (capacity : ℕ) :
    (s.arm n after (timeAdd (s.loopNow clock) after) capacity).Settled := by
  intro hc m tv h
  rw [armed_arm hs hn, Function.update_apply] at h
  split_ifs at h with heq
  · obtain rfl := Option.some.inj h
    have hidle : s.control ≠ .idle := by
      intro hidle
      rw [arm_control, hidle] at hc
      cases hc
    have := hafter.micros_nonneg
    rw [ht.loopNow_eq hidle, micros_timeAdd, arm_now]
    omega
  · exact hset hc m tv h

theorem updateTime_assertFailures (hs : s.Inv) (hset : s.Settled) (hc : s.control = .updating)
    (tv : Timeval.Reading) : (s.updateTime tv).assertFailures = s.assertFailures := by
  unfold TimerLoop.updateTime
  dsimp only
  split_ifs with hlt
  · rw [timeCmp_neg_iff, Timeval.key_lt_iff_micros tv.2.proper hs.now.proper] at hlt
    have hnow : timeSubAsserts s.now tv.1 = true :=
      (timeSubAsserts_iff hs.now.proper tv.2.proper).mpr hlt.le
    have hfail : (s.timers.timersAdjustBackward (timeSub s.now tv.1)).2 = 0 := by
      refine timersAdjustBackward_failures hs.heap (hs.now.proper.timeSub tv.2.proper) hs.proper
        fun n e h ↦ ?_
      have hle := hset (by rw [hc]; rfl) n e h
      have := tv.2.micros_nonneg
      rw [micros_timeSub]
      omega
    rw [hnow, assert_true]
    exact congrArg (s.assertFailures + ·) hfail
  · rfl

theorem timersTimeoutAsserts_of_settled (hs : s.Inv) (hset : s.Settled)
    (hc : s.control = .waiting) : s.timers.timersTimeoutAsserts s.now = true := by
  unfold TimerMinHeap.timersTimeoutAsserts
  by_cases hsize : s.timers.size = 0
  · simp [hsize]
  · have hroot := armed_root hs.heap hsize
    have hle := hset (by rw [hc]; rfl) _ _ hroot
    rw [(timeSubAsserts_iff (hs.proper _ _ hroot) hs.now.proper).mpr hle, Bool.or_true]

/-- **One step.** A step within a run keeps the heap settled and fails no assertion. -/
theorem Effect.settled (hs : s.Inv) (ht : s.Tracks) (hset : s.Settled) {a : Action}
    (hrun : a.withinRun = true) (h : Effect s a s') :
    s'.Settled ∧ s'.assertFailures = s.assertFailures := by
  cases h with
  | timerNew hnone =>
    refine ⟨hset.of_armed rfl id fun n tv h ↦ ?_, rfl⟩
    rwa [← armed_timerNodeInit hs.heap (hs.not_mem_of_none hnone)]
  | addRefused | delInvoking hτ hdel hinv | delRefused => exact ⟨hset, rfl⟩
  | @addFailed t τ after repeats callback clock alloc hτ hdel hn hafter hcap halloc =>
    have h₁ := hs.setTimer hτ { τ with after, repeats, callback } hafter rfl (Or.inl rfl)
    rw [h₁.expiryAsserted_eq hafter]
    refine ⟨hset.of_armed rfl id fun n tv h ↦ ?_, rfl⟩
    exact (congrFun (armed_setTimeout hn _) n).symm.trans h
  | @added t τ after repeats callback clock alloc capacity hτ hdel hn hafter hcap =>
    have h₁ := hs.setTimer hτ { τ with after, repeats, callback } hafter rfl (Or.inl rfl)
    have ht₁ : (s.setTimer t (some { τ with after, repeats, callback })).Tracks :=
      ht.of_eq rfl rfl id fun n a h ↦ ⟨h, rfl⟩
    have hset₁ : (s.setTimer t (some { τ with after, repeats, callback })).Settled := hset
    rw [h₁.expiryAsserted_eq hafter]
    exact ⟨hset₁.arm h₁ ht₁ hn hafter clock capacity, rfl⟩
  | deleted hτ hinv | freeInvoking hτ hdel hinv | freed hτ hinv | tcpDel =>
    exact ⟨hset.erase hs _, rfl⟩
  | tcpAddRefused hafter =>
    rw [hs.expiryAsserted_eq hafter]
    exact ⟨hset, rfl⟩
  | tcpAddFailed hn hafter =>
    rw [hs.expiryAsserted_eq hafter]
    refine ⟨hset.of_armed rfl id fun n tv h ↦ ?_, rfl⟩
    exact (congrFun (armed_setTimeout hn _) n).symm.trans h
  | tcpAdded hn hafter hcap =>
    rw [hs.expiryAsserted_eq hafter]
    exact ⟨hset.arm hs ht hn hafter _ _, rfl⟩
  | runEnter hc | runExit hc => cases hrun
  | updateTime hc => exact ⟨nofun, updateTime_assertFailures hs hset hc _⟩
  | processed hc hnone =>
    -- `timers_process` returns when the root of the heap has not expired
    refine ⟨fun _ n tv h ↦ ?_, rfl⟩
    exact ((Timeval.key_lt_iff_micros hs.now.proper (hs.proper n tv h)).mp (hnone n tv h)).le
  | firedTimer hc harmed hexp hmin hτ hdel | firedTcp hc harmed hexp hmin
  | returnDeleted hc hτ hdel | returned hc hτ hdel hre | tcpReturn hc => exact ⟨nofun, rfl⟩
  | @reinserted t τ clock hc hτ hdel hrep hn hre =>
    rw [(hs.leaveCallback hc hτ).expiryAsserted_eq (hs.after t τ hτ)]
    exact ⟨nofun, rfl⟩
  | poll hc =>
    rw [timersTimeoutAsserts_of_settled hs hset hc, assert_true]
    exact ⟨hset.of_armed rfl (fun _ ↦ by rw [hc]; rfl) fun n tv h ↦ h, rfl⟩
  | nextIteration hc =>
    exact ⟨hset.of_armed rfl (fun _ ↦ by rw [hc]; rfl) fun n tv h ↦ h, rfl⟩

/-! ## One run of the loop -/

/-- **Timers measure forward clock movement only.** In one run of the loop, whatever the clock
reads: a node that is armed gets a record with its delay, which it keeps until it is fired or the
client deletes it; as long as it has the record, its expiry is ahead of the cached clock by what is
left of the delay; `timers_process` fires it if and only if its delay has passed, and no delay of an
armed node has passed when `timers_process` returns; the heap stays well formed, also under
`timers_adjust_backward`; and no assertion on times fails from the first `timers_process` on. -/
theorem timers_measure_forward_clock {s₀ s₁ s₂ : TimerLoop} {c₀ c₁ : Timeval.Reading}
    {as : List Action}
    (h₀ : Reachable step (fun s a ↦ s.clockNonzero a = true) init s₀)
    (h₁ : Run step (fun s a ↦ s.clockNonzero a = true) s₀ [.runEnter c₀, .updateTime c₁] s₁)
    (h₂ : Run step (fun s a ↦ s.clockNonzero a = true ∧ a.withinRun = true) s₁ as s₂) :
    (∀ n a, s₂.arming n = some a → s₂.timers.timerNodeActive n = true ∧
        (s₂.timers.node n).timeout.micros - s₂.now.micros = a.delay - (s₂.elapsed - a.since)) ∧
      (∀ s₃ b n, step s₂ b = some s₃ → b.withinRun = true → s₂.Traced b s₃ n) ∧
      (∀ s₃ n a, step s₂ .processTurn = some s₃ → s₃.log = .fired n :: s₂.log →
        s₂.arming n = some a → a.delay ≤ s₂.elapsed - a.since) ∧
      (∀ s₃ n a, step s₂ .processTurn = some s₃ → s₃.control = .waiting →
        s₃.arming n = some a → s₃.elapsed - a.since < a.delay) ∧
      (∀ s₃ bs n a, s₂.control = .processing → s₂.arming n = some a →
        Run step (processing n) s₂ bs s₃ → s₃.control = .waiting →
        (s₂.log.count (.fired n) < s₃.log.count (.fired n) ↔ a.delay ≤ s₂.elapsed - a.since)) ∧
      (s₂.timers.WellFormed ∧ ∀ clock : Timeval.Reading, timeCmp clock.1 s₂.now < 0 →
        (s₂.timers.timersAdjustBackward (timeSub s₂.now clock.1)).1.WellFormed) ∧
      s₂.assertFailures = s₁.assertFailures := by
  have hstep : ∀ s a s', s.Inv ∧ s.Tracks → s.clockNonzero a = true → step s a = some s' →
      s'.Inv ∧ s'.Tracks := by
    rintro s a s' ⟨hs, ht⟩ hok hstep
    have hE := step_effect hs hstep
    exact ⟨hE.inv hs, hE.tracks hs ht hok⟩
  have hboth₁ : s₁.Inv ∧ s₁.Tracks :=
    h₁.invariant (I := fun s ↦ s.Inv ∧ s.Tracks) hstep
      (h₀.invariant (I := fun s ↦ s.Inv ∧ s.Tracks) ⟨init_inv, init_tracks⟩ hstep)
  -- the first `timers_process` of the run begins in `s₁`
  have hbegin : s₁.control = .processing := by
    cases h₁ with
    | cons _ hstep₁ rest =>
      cases rest with
      | cons _ hstep₂ rest' =>
        cases rest'
        simp only [step, stepBy, Option.ite_none_right_eq_some, Option.some.injEq] at hstep₂
        obtain ⟨-, rfl⟩ := hstep₂
        rfl
  have hset₁ : s₁.Settled := by
    intro hafter
    rw [hbegin] at hafter
    cases hafter
  have hall : (s₂.Inv ∧ s₂.Tracks) ∧ s₂.control ≠ .idle ∧ s₂.Settled ∧
      s₂.assertFailures = s₁.assertFailures := by
    refine h₂.invariant (I := fun s ↦ (s.Inv ∧ s.Tracks) ∧ s.control ≠ .idle ∧ s.Settled ∧
      s.assertFailures = s₁.assertFailures) ?_ ⟨hboth₁, by simp [hbegin], hset₁, rfl⟩
    rintro s a s' ⟨⟨hs, ht⟩, hc, hset, hfail⟩ ⟨hok, hrun⟩ h
    have hE := step_effect hs h
    obtain ⟨hset', hfail'⟩ := hE.settled hs ht hset hrun
    exact ⟨hstep s a s' ⟨hs, ht⟩ hok h, hE.running hrun hc, hset', hfail'.trans hfail⟩
  obtain ⟨⟨hs, ht⟩, hc, -, hfail⟩ := hall
  refine ⟨fun n a ha ↦ ht.timeout_eq ha, ?_, ?_, ?_, ?_, ⟨hs.heap.wellFormed, fun clock _ ↦ ?_⟩,
    hfail⟩
  · intro s₃ b n h hrun
    exact (step_effect hs h).traced hs hc hrun n
  · intro s₃ n a h hlog ha
    exact (step_effect hs h).due_of_fired hs ht hlog ha
  · intro s₃ n a h hw ha
    exact (step_effect hs h).not_due_of_waiting hs ht hw ha
  · intro s₃ bs n a hp ha hrun hw
    exact fired_iff_due hs ht hp ha hrun hw
  · have hoff := hs.now.proper.timeSub clock.2.proper
    exact (timersAdjustBackward_invariant hs.heap hoff hs.proper).wellFormed

/-- A timeout is armed at 101 seconds with a delay of 5; the clock then goes back to 50 seconds,
forward to 54, where it is not due, and to 56, where it is. -/
def jumpBack : List Action :=
  [.processTurn, .poll, .tcpTimeoutAdd 0 false ⟨5, 0⟩ (.ofSec 1) true, .nextIteration,
    .updateTime (.ofSec 50), .processTurn, .poll, .nextIteration, .updateTime (.ofSec 54),
    .processTurn, .poll, .nextIteration, .updateTime (.ofSec 56)]

theorem timers_measure_forward_clock_jumpBack :
    ∃ s₁ s₂ s₃ : TimerLoop,
      exec step (fun s a ↦ s.clockNonzero a = true) init
        [.runEnter (.ofSec 100), .updateTime (.ofSec 101)] = some s₁ ∧
      exec step (fun s a ↦ s.clockNonzero a = true ∧ a.withinRun = true) s₁ jumpBack = some s₂ ∧
      s₂.arming (.tcp 0 false) = some ⟨5000000, 1000000⟩ ∧ s₂.elapsed = 7000000 ∧ s₂.log = [] ∧
      (s₂.timers.node (.tcp 0 false)).timeout.micros - s₂.now.micros =
        5000000 - (s₂.elapsed - 1000000) ∧
      Run step (processing (.tcp 0 false)) s₂
        [.processTurn, .callbackReturn (.ofSec 56), .processTurn] s₃ ∧
      s₃.control = .waiting ∧ 0 < s₃.log.count (.fired (.tcp 0 false)) := by
  have hrun : ((exec step (fun s a ↦ s.clockNonzero a = true) init
      [.runEnter (.ofSec 100), .updateTime (.ofSec 101)]).bind fun s₁ ↦
        (exec step (fun s a ↦ s.clockNonzero a = true ∧ a.withinRun = true) s₁ jumpBack).bind
          fun s₂ ↦ (exec step (processing (.tcp 0 false)) s₂
            [.processTurn, .callbackReturn (.ofSec 56), .processTurn]).map fun s₃ ↦
            (s₂.arming (.tcp 0 false), s₂.elapsed, s₂.log, s₂.control, s₃.control)) =
      some (some ⟨5000000, 1000000⟩, 7000000, [], .processing, .waiting) := by decide +kernel
  obtain ⟨s₁, h₁, hrest⟩ := Option.bind_eq_some_iff.mp hrun
  obtain ⟨s₂, h₂, hrest⟩ := Option.bind_eq_some_iff.mp hrest
  obtain ⟨s₃, h₃, heq⟩ := Option.map_eq_some_iff.mp hrest
  simp only [Prod.mk.injEq] at heq
  obtain ⟨harming, helapsed, hlog, hc, hw⟩ := heq
  obtain ⟨hremaining, -, -, -, hfires, -⟩ :=
    timers_measure_forward_clock Reachable.refl (Run.of_exec h₁) (Run.of_exec h₂)
  refine ⟨s₁, s₂, s₃, h₁, h₂, harming, helapsed, hlog, (hremaining _ _ harming).2,
    Run.of_exec h₃, hw, ?_⟩
  have hfired := (hfires s₃ _ _ _ hc harming (Run.of_exec h₃) hw).mpr (by rw [helapsed]; decide)
  rwa [hlog, List.count_nil] at hfired

end TimerLoop

end Nanoev
