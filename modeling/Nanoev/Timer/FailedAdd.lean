import Nanoev.Timer.Alike
import Nanoev.Timer.Wait

/-!
# A failed `nanoev_timer_add`

`nanoev_timer_add` stores its arguments in the timer before `timer_node_add` can fail for lack of
memory, and a failure does not take them back. As a rule nobody notices: the fields of a timer that
is not armed are not read, and the next successful call overwrites them. The exception is a call
from the timer's own callback. When the callback returns, `timer_event_node_callback` reads the
fields to decide whether, and with which interval, the timer is put back; so a call that has failed
stops a repeating timer, or sets a one-shot timer to repeating, or changes the interval and the
callback.

Two loops are compared, one with the failed call and one without it. They are alike if the call was
`Harmless`: the timer was active or the delay invalid, or the call was not made in the timer's own
callback, or the timer repeats neither with the old nor with the new arguments, or these are the
same. Otherwise some continuation tells them apart (`fields_of_sameRecords`). The callback deletes
all other nodes and returns; if the timer is put back in one loop only, or with different intervals,
the next turn of `timers_process` or the time-out of the poller shows it, and if only the callbacks
differ, the next firing does.
-/

namespace Nanoev

open Transition

namespace TimerLoop

open TimerMinHeap

variable {s s' z z' : TimerLoop} {t : ℕ} {n : NodeRef} {clock : Timeval.Reading} {τ τ' : Timer}
  {o o' : Option Timeval} {tv : Timeval}

/-! ## A loop with one timer -/

/-- The loop is in `timers_process`, the timer `t` has the fields `τ`, and no node is armed but
possibly this one. -/
structure Alone (t : ℕ) (τ : Timer) (o : Option Timeval) (s : TimerLoop) : Prop where
  inv : s.Inv
  control : s.control = .processing
  timer : s.timer t = some τ
  armed : s.timers.armed = Function.update (fun _ ↦ none) (.timer t) o

theorem Alone.size_eq_zero (h : Alone t τ none s) : s.timers.size = 0 := by
  by_contra hsize
  have hroot := armed_root h.inv.heap hsize
  rw [h.armed, Function.update_eq_self_iff.mpr rfl] at hroot
  cases hroot

theorem Alone.root (h : Alone t τ (some tv) s) :
    s.timers.size ≠ 0 ∧ s.timers.events 0 = .timer t ∧ (s.timers.node (.timer t)).timeout = tv := by
  have harmed : s.timers.armed (.timer t) = some tv := by rw [h.armed, Function.update_self]
  have hsize : s.timers.size ≠ 0 := by
    intro hzero
    rw [armed_of_size_eq_zero h.inv.heap hzero] at harmed
    cases harmed
  have hroot := armed_root h.inv.heap hsize
  rw [h.armed, Function.update_apply] at hroot
  split_ifs at hroot with heq
  exact ⟨hsize, heq, (armed_eq_some_iff.mp harmed).2⟩

theorem Alone.expiredRoot_of_le (h : Alone t τ (some tv) s) (hle : tv.key ≤ s.now.key) :
    s.expiredRoot = some (.timer t) := by
  obtain ⟨hsize, hroot, htimeout⟩ := h.root
  rw [expiredRoot, if_neg hsize, hroot, htimeout, if_neg]
  exact fun hgt ↦ absurd (timeCmp_pos_iff.mp hgt) hle.not_gt

theorem Alone.expiredRoot_eq_some (h : Alone t τ o s) (hroot : s.expiredRoot = some n) :
    n = .timer t ∧ o ≠ none := by
  have hmem := armed_eq_none_iff.not_left.mpr (h.inv.expiredRoot_mem hroot)
  rw [h.armed, Function.update_apply] at hmem
  split_ifs at hmem with heq
  · exact ⟨heq, hmem⟩
  · exact absurd rfl hmem

theorem Alone.now_lt (h : Alone t τ (some tv) s) (hroot : s.expiredRoot = none) :
    s.now.key < tv.key := by
  by_contra hle
  rw [h.expiredRoot_of_le (not_lt.mp hle)] at hroot
  cases hroot

theorem Alone.observations_processTurn (h : Alone t τ o s) (hroot : s.expiredRoot = some n) :
    s.observations .processTurn =
      [.fired s.now (.timer t) (some (τ.callback, τ.after, τ.repeats))] := by
  obtain ⟨rfl, -⟩ := h.expiredRoot_eq_some hroot
  rw [observations, hroot, Option.map_some, timerFields, h.timer]
  rfl

theorem Alone.fields_of_fired (h : Alone t τ o s) (h' : Alone t τ' o' s')
    (hroot : s.expiredRoot = some n)
    (hobs : s.observations .processTurn = s'.observations .processTurn) :
    τ.after = τ'.after ∧ τ.repeats = τ'.repeats ∧ τ.callback = τ'.callback := by
  rw [h.observations_processTurn hroot] at hobs
  cases hroot' : s'.expiredRoot with
  | none =>
    rw [observations, hroot'] at hobs
    cases hobs
  | some n' =>
    rw [h'.observations_processTurn hroot'] at hobs
    simp only [List.cons.injEq, Observation.fired.injEq, Option.some.injEq, Prod.mk.injEq] at hobs
    obtain ⟨⟨-, -, hcallback, hafter, hrepeats⟩, -⟩ := hobs
    exact ⟨hafter, hrepeats, hcallback⟩

/-! ## Waiting -/

/-- `timers_process` ends without firing, and the poller is asked for events. -/
theorem Alone.poll (h : Alone t τ o s) (hroot : s.expiredRoot = none) :
    step s .processTurn = some { s with control := .waiting } ∧
      ∃ z, step { s with control := .waiting } .poll = some z ∧ z.Inv ∧ z.control = .polling ∧
        z.now = s.now ∧ z.timers = s.timers ∧ z.timer = s.timer := by
  have hturn : s.processTurn = { s with control := .waiting } := by
    rw [processTurn_eq, hroot]
  have hwait : Inv { s with control := .waiting } :=
    h.inv.setControl (processing_ne h.control) _ nofun
  have hpoll : step { s with control := .waiting } .poll = some _ := rfl
  exact ⟨(if_pos h.control).trans (congrArg some hturn), _, hpoll,
    (step_effect hwait hpoll).inv hwait, rfl, rfl, rfl, rfl⟩

theorem Alone.timersTimeout_none (h : Alone t τ none s) :
    (s.timers.timersTimeout s.now s.timeout).sec = -1 := by
  rw [timersTimeout, if_pos h.size_eq_zero]

theorem Alone.timersTimeout_some (h : Alone t τ (some tv) s) (hroot : s.expiredRoot = none) :
    tv.Proper ∧ 0 ≤ (s.timers.timersTimeout s.now s.timeout).sec ∧
      (s.timers.timersTimeout s.now s.timeout).micros = tv.micros - s.now.micros := by
  have harmed : s.timers.armed (.timer t) = some tv := by rw [h.armed, Function.update_self]
  have hproper := h.inv.proper _ _ harmed
  have hlt := (Timeval.key_lt_iff_micros h.inv.now.proper hproper).mp (h.now_lt hroot)
  obtain ⟨hsize, hevents, htimeout⟩ := h.root
  have hval : s.timers.timersTimeout s.now s.timeout = timeSub tv s.now := by
    rw [timersTimeout, if_neg hsize, hevents]
    dsimp only
    rw [htimeout, if_neg]
    rw [timeCmp_nonpos_iff]
    exact (h.now_lt hroot).not_ge
  obtain ⟨-, hlt'⟩ := hproper.timeSub h.inv.now.proper
  have hmicros := micros_timeSub tv s.now
  rw [hval]
  refine ⟨hproper, ?_, hmicros⟩
  rw [Timeval.micros] at hmicros
  omega

/-- The time-out tells whether the timer is armed, and when it expires. -/
theorem Alone.expiry_of_timeout (h : Alone t τ o s) (h' : Alone t τ' o' s')
    (hnow : s'.now = s.now) (hroot : s.expiredRoot = none) (hroot' : s'.expiredRoot = none)
    (heq : s.timers.timersTimeout s.now s.timeout = s'.timers.timersTimeout s'.now s'.timeout) :
    o = o' := by
  cases o with
  | none =>
    cases o' with
    | none => rfl
    | some tv' =>
      have hneg := h.timersTimeout_none
      obtain ⟨-, hsec, -⟩ := h'.timersTimeout_some hroot'
      rw [heq] at hneg
      omega
  | some tv =>
    obtain ⟨hproper, hsec, hmicros⟩ := h.timersTimeout_some hroot
    cases o' with
    | none =>
      have hneg := h'.timersTimeout_none
      rw [heq] at hsec
      omega
    | some tv' =>
      obtain ⟨hproper', -, hmicros'⟩ := h'.timersTimeout_some hroot'
      rw [heq, hmicros', hnow] at hmicros
      exact congrArg some (hproper.eq_of_micros hproper' (by omega))

theorem Alone.nextIteration (clock : Timeval.Reading) (h : Alone t τ (some clock.1) s)
    (hlt : s.now.key < clock.1.key) (hz : z.Inv) (hc : z.control = .polling)
    (hnow : z.now = s.now) (htimers : z.timers = s.timers) (htimer : z.timer = s.timer) :
    step z .nextIteration = some { z with control := .updating } ∧
      ∃ y, step { z with control := .updating } (.updateTime clock) = some y ∧
        Alone t τ (some clock.1) y ∧ y.now = clock.1 := by
  have hinv : Inv { z with control := .updating } := by
    refine hz.setControl (fun u ↦ ?_) _ nofun
    rw [hc]
    exact nofun
  have hstep : step { z with control := .updating } (.updateTime clock) =
      some { TimerLoop.updateTime { z with control := .updating } clock with
        control := .processing } := rfl
  refine ⟨if_pos hc, _, hstep, ⟨(step_effect hinv hstep).inv hinv, rfl, ?_, ?_⟩, rfl⟩
  · have hframe := (updateTime_frame { z with control := .updating } clock).2.1
    refine (congrFun hframe t).trans ?_
    change z.timer t = some τ
    rw [htimer]
    exact h.timer
  · -- the clock has not been set back, so no expiry is shifted
    funext n
    refine (armed_updateTime hinv clock n).trans ?_
    have hshift : ∀ x, shifted z.now clock.1 x = x := by
      intro x
      rw [shifted, if_neg]
      rw [timeCmp_neg_iff, hnow]
      exact hlt.not_gt
    change (z.timers.armed n).map (shifted z.now clock.1) = _
    rw [funext hshift, htimers, h.armed]
    exact congrFun Option.map_id _

/-- **Two loops with one timer** that cannot be told apart: the timer is armed in neither, or it has
the same fields. -/
theorem Alone.fields_of_sameRecords (h : Alone t τ o s) (h' : Alone t τ' o' s')
    (hnow : s'.now = s.now) (hsec : ∀ tv, o = some tv → 0 ≤ tv.sec)
    (hsame : SameRecords step observations s s') :
    (o = none ∧ o' = none) ∨
      (τ.after = τ'.after ∧ τ.repeats = τ'.repeats ∧ τ.callback = τ'.callback) := by
  obtain ⟨-, -, hobs, -⟩ := hsame.next (show step s .processTurn = _ from if_pos h.control)
  cases hroot : s.expiredRoot with
  | some n => exact Or.inr (h.fields_of_fired h' hroot hobs)
  | none =>
    cases hroot' : s'.expiredRoot with
    | some n =>
      obtain ⟨hafter, hrepeats, hcallback⟩ := h'.fields_of_fired h hroot' hobs.symm
      exact Or.inr ⟨hafter.symm, hrepeats.symm, hcallback.symm⟩
    | none =>
      obtain ⟨hturn, z, hpoll, hz, hzc, hznow, hztimers, hztimer⟩ := h.poll hroot
      obtain ⟨hturn', z', hpoll', hz', hzc', hznow', hztimers', hztimer'⟩ := h'.poll hroot'
      obtain ⟨w', hw', -, hwsame⟩ := hsame.next hturn
      obtain rfl := Option.some.inj (hturn'.symm.trans hw')
      obtain ⟨w', hw', hpolled, hzsame⟩ := hwsame.next hpoll
      obtain rfl := Option.some.inj (hpoll'.symm.trans hw')
      have htimeout := Observation.polled.inj (List.singleton_inj.mp hpolled)
      obtain rfl := h.expiry_of_timeout h' hnow hroot hroot' htimeout
      cases o with
      | none => exact Or.inl ⟨rfl, rfl⟩
      | some tv =>
        -- the loops wait until the timer expires, and it fires in both
        have harmed : s.timers.armed (.timer t) = some tv := by
          rw [h.armed, Function.update_self]
        have hlt := h.now_lt hroot
        let clock : Timeval.Reading := ⟨tv, hsec tv rfl, h.inv.proper _ _ harmed⟩
        have hlt' : s'.now.key < clock.1.key := hnow ▸ hlt
        obtain ⟨hnext, y, hupdate, hy, hynow⟩ :=
          Alone.nextIteration clock h hlt hz hzc hznow hztimers hztimer
        obtain ⟨hnext', y', hupdate', hy', -⟩ :=
          Alone.nextIteration clock h' hlt' hz' hzc' hznow' hztimers' hztimer'
        obtain ⟨w', hw', -, hwsame⟩ := hzsame.next hnext
        obtain rfl := Option.some.inj (hnext'.symm.trans hw')
        obtain ⟨w', hw', -, hysame⟩ := hwsame.next hupdate
        obtain rfl := Option.some.inj (hupdate'.symm.trans hw')
        obtain ⟨-, -, hobs, -⟩ := hysame.next (show step y .processTurn = _ from if_pos hy.control)
        exact Or.inr (hy.fields_of_fired hy' (hy.expiredRoot_of_le (by rw [hynow])) hobs)

/-! ## Deleting the other nodes -/

def deletion : NodeRef → Action
  | .timer u => .timerDel u
  | .tcp e write => .tcpTimeoutDel e write

theorem step_deletion (hs : s.Inv) (hc : s.control = .timerCallback t) (hn : n ≠ .timer t)
    (harmed : s.timers.armed n = some tv) :
    ∃ z, step s (deletion n) = some z ∧ z.Inv ∧ z.now = s.now ∧ z.control = s.control ∧
      z.timer = s.timer ∧ z.timers.armed = Function.update s.timers.armed n none := by
  have huser : s.inUserCode = true := by rw [inUserCode, hc]
  cases n with
  | tcp e write =>
    exact ⟨_, if_pos huser, hs.erase _, rfl, rfl, rfl, armed_erase hs _⟩
  | timer u =>
    obtain ⟨τ, hτ, hdel⟩ := hs.live u tv harmed
    have hidle : τ.invokingCallback = false := by
      refine Bool.eq_false_iff.mpr fun hv ↦ hn ?_
      have hu := (hs.invoking u).mpr ⟨τ, hτ, hv⟩
      rw [hc] at hu
      exact congrArg NodeRef.timer (Control.timerCallback.inj hu).symm
    have hact : s.timers.timerNodeActive (.timer u) = true := by
      rw [timerNodeActive_eq, harmed]
      rfl
    have hcall : (s.timerDel u τ).1 = (s.erase (.timer u)).record (.deleted u) := by
      rw [timerDel, if_neg (Bool.eq_false_iff.mp hidle), if_pos hact]
    have hstep : step s (deletion (.timer u)) =
        some ((s.erase (.timer u)).record (.deleted u)) := by
      change (if s.inUserCode then (s.liveTimer u).map fun τ ↦ (s.timerDel u τ).1 else none) = _
      rw [if_pos huser, liveTimer_eq_some_iff.mpr ⟨hτ, hdel⟩, Option.map_some, hcall]
    exact ⟨_, hstep, (hs.erase _).record _, rfl, rfl, rfl, armed_erase hs _⟩

/-- Two loops inside the callback of the timer `t` that have the same nodes armed, not the one of
this timer, and cannot be told apart. -/
structure Apart (t : ℕ) (τ τ' : Timer) (s s' : TimerLoop) : Prop where
  inv : s.Inv
  inv' : s'.Inv
  same : SameRecords step observations s s'
  now : s'.now = s.now
  control : s.control = .timerCallback t
  control' : s'.control = .timerCallback t
  timer : s.timer t = some τ
  timer' : s'.timer t = some τ'
  armed : s'.timers.armed = s.timers.armed
  inactive : s.timers.armed (.timer t) = none

theorem Apart.delete (l : List NodeRef) : ∀ {s s' : TimerLoop}, Apart t τ τ' s s' →
    ∃ z z', Apart t τ τ' z z' ∧
      ∀ n, n ∈ l ∨ s.timers.armed n = none → z.timers.armed n = none := by
  induction l with
  | nil => exact fun {s s'} h ↦ ⟨s, s', h, fun n hn ↦ hn.resolve_left List.not_mem_nil⟩
  | cons n l ih =>
    intro s s' h
    cases harmed : s.timers.armed n with
    | none =>
      obtain ⟨z, z', hz, hnone⟩ := ih h
      refine ⟨z, z', hz, fun m hm ↦ hnone m ?_⟩
      rcases hm with hm | hm
      · rcases List.mem_cons.mp hm with rfl | hm
        · exact Or.inr harmed
        · exact Or.inl hm
      · exact Or.inr hm
    | some tv =>
      have hn : n ≠ .timer t := by
        rintro rfl
        rw [h.inactive] at harmed
        cases harmed
      have harmed' : s'.timers.armed n = some tv := by rw [h.armed, harmed]
      obtain ⟨y, hstep, hy, hynow, hyc, hytimer, hyarmed⟩ :=
        step_deletion h.inv h.control hn harmed
      obtain ⟨y', hstep', hy', hynow', hyc', hytimer', hyarmed'⟩ :=
        step_deletion h.inv' h.control' hn harmed'
      obtain ⟨w, hw, -, hsame⟩ := h.same.next hstep
      obtain rfl := Option.some.inj (hstep'.symm.trans hw)
      have hapart : Apart t τ τ' y y' := by
        refine ⟨hy, hy', hsame, ?_, hyc.trans h.control, hyc'.trans h.control', ?_, ?_, ?_, ?_⟩
        · rw [hynow, hynow', h.now]
        · rw [hytimer, h.timer]
        · rw [hytimer', h.timer']
        · rw [hyarmed, hyarmed', h.armed]
        · rw [hyarmed, Function.update_of_ne hn.symm, h.inactive]
      obtain ⟨z, z', hz, hnone⟩ := ih hapart
      refine ⟨z, z', hz, fun m hm ↦ hnone m ?_⟩
      rw [hyarmed]
      by_cases hmn : m = n
      · right
        rw [hmn, Function.update_self]
      · rw [Function.update_of_ne hmn]
        exact hm.imp_left fun hmem ↦ (List.mem_cons.mp hmem).resolve_left hmn

theorem Apart.deleteAll (h : Apart t τ τ' s s') :
    ∃ z z', Apart t τ τ' z z' ∧ z.timers.armed = fun _ ↦ none := by
  obtain ⟨z, z', hz, hnone⟩ := h.delete ((List.range s.timers.size).map s.timers.events)
  refine ⟨z, z', hz, funext fun n ↦ hnone n ?_⟩
  by_cases hn : n ∈ s.timers.activeNodes
  · obtain ⟨i, hi, rfl⟩ := h.inv.heap.holds.mem n hn
    exact Or.inl (List.mem_map.mpr ⟨i, List.mem_range.mpr hi, rfl⟩)
  · exact Or.inr (armed_eq_none_iff.mpr hn)

theorem step_callbackReturn (clock : Timeval.Reading) (hs : s.Inv)
    (hc : s.control = .timerCallback t) (hτ : s.timer t = some τ) (hdel : τ.deleted = false)
    (harmed : s.timers.armed = fun _ ↦ none) :
    ∃ z, step s (.callbackReturn clock) = some z ∧ z.now = s.now ∧
      Alone t { τ with invokingCallback := false }
        (if τ.repeats then some (timeAdd (s.loopNow clock) τ.after) else none) z := by
  have hstep : step s (.callbackReturn clock) = some (s.timerReturnBy timeAdd t τ clock) := by
    change stepBy timeAdd s (.callbackReturn clock) = _
    rw [stepBy, hc]
    exact congrArg (Option.map _) hτ
  have hinv := (step_effect hs hstep).inv hs
  have hnone : s.timers.armed (.timer t) = none := congrFun harmed _
  refine ⟨_, hstep, ?_⟩
  rcases timerReturnBy_cases timeAdd s t τ clock with ⟨hdel', -⟩ | ⟨-, hre, heq⟩ |
    ⟨-, hrep, hn, -, heq⟩
  · rw [hdel] at hdel'
    cases hdel'
  · have honce : τ.repeats = false := by
      rw [reinserts, hdel, timerNodeActive_eq, hnone] at hre
      simpa using hre
    rw [heq] at hinv ⊢
    refine ⟨rfl, hinv, rfl, Function.update_self .., ?_⟩
    rw [honce, if_neg Bool.false_ne_true, Function.update_eq_self_iff.mpr rfl]
    exact harmed
  · rw [heq] at hinv ⊢
    refine ⟨rfl, hinv, rfl, Function.update_self .., ?_⟩
    rw [hrep, if_pos rfl, ← harmed]
    exact armed_pushLast hs.heap hn _ _

/-- **A continuation that tells the loops apart**, if the timer repeats in one of them and the
fields are not the same. -/
theorem Apart.fields (h : Apart t τ τ' s s') (hdel : τ.deleted = false)
    (hdel' : τ'.deleted = false) :
    (τ.repeats = false ∧ τ'.repeats = false) ∨
      (τ.after = τ'.after ∧ τ.repeats = τ'.repeats ∧ τ.callback = τ'.callback) := by
  obtain ⟨z, z', hz, hempty⟩ := h.deleteAll
  have hempty' : z'.timers.armed = fun _ ↦ none := hz.armed.trans hempty
  obtain ⟨y, hstep, hynow, hy⟩ := step_callbackReturn (.ofSec 0) hz.inv hz.control hz.timer
    hdel hempty
  obtain ⟨y', hstep', hynow', hy'⟩ := step_callbackReturn (.ofSec 0) hz.inv' hz.control' hz.timer'
    hdel' hempty'
  obtain ⟨w, hw, -, hsame⟩ := hz.same.next hstep
  obtain rfl := Option.some.inj (hstep'.symm.trans hw)
  have hnow : y'.now = y.now := by rw [hynow, hynow', hz.now]
  have hsec : ∀ tv, (if τ.repeats then some (timeAdd (z.loopNow (.ofSec 0)) τ.after) else none) =
      some tv → 0 ≤ tv.sec := by
    intro tv heq
    obtain ⟨-, heq⟩ := Option.ite_none_right_eq_some.mp heq
    obtain rfl := Option.some.inj heq
    exact ((hz.inv.loopNow_normalized _).timeAdd (hz.inv.after t τ hz.timer)).1
  refine (hy.fields_of_sameRecords hy' hnow hsec hsame).imp_left fun hnone ↦ ?_
  have honce : ∀ {b : Bool} {x : Timeval}, (if b then some x else none) = none → b = false := by
    intro b x hnone
    cases b
    · rfl
    · cases hnone
  exact ⟨honce hnone.1, honce hnone.2⟩

/-! ## The failed call -/

/-- The arguments of the call are not stored, or are not read, or are the same as before. -/
def Harmless (s : TimerLoop) (t : ℕ) (τ : Timer) (after : Timeval) (repeats : Bool)
    (callback : ℕ) : Prop :=
  s.timers.timerNodeActive (.timer t) = true ∨ invalidDelay after = true ∨
    τ.invokingCallback = false ∨ (τ.repeats = false ∧ repeats = false) ∨
    (τ.after = after ∧ τ.repeats = repeats ∧ τ.callback = callback)

/-- What a call that fails leaves behind: nothing, if the timer is active or the delay is invalid,
and otherwise the arguments and the expiry. -/
theorem timerAdd_of_failed {after : Timeval} {repeats : Bool} {callback : ℕ} {alloc : Bool}
    (hfail : (s.timerAdd t τ after repeats callback clock alloc).2 ≠ .success) :
    ((s.timers.timerNodeActive (.timer t) = true ∨ invalidDelay after = true) ∧
        (s.timerAdd t τ after repeats callback clock alloc).1 = s) ∨
      (s.timers.timerNodeActive (.timer t) = false ∧ invalidDelay after = false ∧
        .timer t ∉ s.timers.activeNodes ∧
        (s.timerAdd t τ after repeats callback clock alloc).1 =
          (((s.setTimer t (some { τ with after, repeats, callback })).expiryAsserted after
            clock).writeTimeout (.timer t) (timeAdd (s.loopNow clock) after))) := by
  unfold timerAdd timerAddBy at hfail ⊢
  split_ifs at hfail ⊢ with hactive hinvalid
  · exact Or.inl ⟨Or.inl hactive, rfl⟩
  · exact Or.inl ⟨Or.inr hinvalid, rfl⟩
  · refine Or.inr ⟨Bool.eq_false_iff.mpr hactive, Bool.eq_false_iff.mpr hinvalid, ?_⟩
    dsimp only at hfail ⊢
    rcases nodeAddBy_cases timeAdd (s.setTimer t (some { τ with after, repeats, callback }))
      (.timer t) after clock alloc with ⟨hn, -⟩ | ⟨hn, -, -, heq⟩ | ⟨-, capacity, -, heq⟩
    · exact absurd (mem_activeNodes.mp hn) hactive
    · rw [heq]
      exact ⟨hn, rfl⟩
    · rw [heq] at hfail
      exact absurd rfl hfail

theorem Alike.refl (t : ℕ) (s : TimerLoop) : Alike t s s :=
  ⟨rfl, rfl, rfl, Or.inl rfl, fun _ _ ↦ rfl, Or.inl rfl⟩

theorem alike_timerAdd {after : Timeval} {repeats : Bool} {callback : ℕ} {alloc : Bool}
    (hτ : s.timer t = some τ)
    (hfail : (s.timerAdd t τ after repeats callback clock alloc).2 ≠ .success)
    (hharmless : Harmless s t τ after repeats callback) :
    Alike t s (s.timerAdd t τ after repeats callback clock alloc).1 := by
  rcases timerAdd_of_failed hfail with ⟨-, heq⟩ | ⟨hactive, hvalid, hn, heq⟩
  · rw [heq]
    exact Alike.refl t s
  · -- the arguments and the expiry have been stored
    rw [heq]
    refine ⟨rfl, rfl, rfl, Or.inr ⟨hn, _, rfl⟩, fun u hu ↦ Function.update_of_ne hu .., ?_⟩
    change Function.update s.timer t (some { τ with after, repeats, callback }) t = s.timer t ∨
      (_ ∧ Option.Rel SameInactive (s.timer t)
        (Function.update s.timer t (some { τ with after, repeats, callback }) t))
    rw [Function.update_self, hτ]
    rcases hharmless with hact | hinvalid | hinvoking | ⟨honce, honce'⟩ | ⟨rfl, rfl, rfl⟩
    · rw [hactive] at hact
      cases hact
    · rw [hvalid] at hinvalid
      cases hinvalid
    · refine Or.inr ⟨hn, .some ⟨rfl, rfl, fun hinv ↦ ?_⟩⟩
      rw [hinvoking] at hinv
      cases hinv
    · exact Or.inr ⟨hn, .some ⟨rfl, rfl, fun _ ↦ ⟨honce, honce'⟩⟩⟩
    · exact Or.inl rfl

theorem harmless_of_sameRecords {after : Timeval} {repeats : Bool} {callback : ℕ} {alloc : Bool}
    (hs : s.Inv) (hτ : s.timer t = some τ) (hdel : τ.deleted = false)
    (hfail : (s.timerAdd t τ after repeats callback clock alloc).2 ≠ .success)
    (hinv : (s.timerAdd t τ after repeats callback clock alloc).1.Inv)
    (hsame : SameRecords step observations s
      (s.timerAdd t τ after repeats callback clock alloc).1) :
    Harmless s t τ after repeats callback := by
  rcases timerAdd_of_failed hfail with ⟨hearly, -⟩ | ⟨-, -, hn, heq⟩
  · exact hearly.elim Or.inl fun hinvalid ↦ Or.inr (Or.inl hinvalid)
  by_cases hinvoking : τ.invokingCallback = true
  · have hc : s.control = .timerCallback t := (hs.invoking t).mpr ⟨τ, hτ, hinvoking⟩
    rw [heq] at hsame hinv
    have hapart : Apart t τ { τ with after, repeats, callback } s _ :=
      ⟨hs, hinv, hsame, rfl, hc, hc, hτ, Function.update_self .., armed_setTimeout hn _,
        armed_eq_none_iff.mpr hn⟩
    exact Or.inr (Or.inr (Or.inr (hapart.fields hdel hdel)))
  · exact Or.inr (Or.inr (Or.inl (Bool.eq_false_iff.mpr hinvoking)))

/-- **A failed `nanoev_timer_add` has no effect, if and only if it is harmless**: what can be
observed in the rest of a run, the return codes, the time-outs of the poller and which timers fire,
when, with which callback and interval, is what could be observed without the call. -/
theorem failedAdd_unobservable_iff {after : Timeval} {repeats : Bool} {callback : ℕ}
    {alloc : Bool} (h : Reachable step anyStep init s) (hτ : s.liveTimer t = some τ)
    (hfail : (s.timerAdd t τ after repeats callback clock alloc).2 ≠ .success) :
    SameRecords step observations (s.timerAdd t τ after repeats callback clock alloc).1 s ↔
      Harmless s t τ after repeats callback := by
  have hs := inv_of_reachable h
  obtain ⟨hτ', hdel⟩ := liveTimer_eq_some_iff.mp hτ
  have hE : Effect s (.timerAdd t after repeats callback clock alloc)
      (s.timerAdd t τ after repeats callback clock alloc).1 :=
    timerAdd_effect hτ' hdel repeats callback
  constructor
  · intro hsame
    exact harmless_of_sameRecords hs hτ' hdel hfail (hE.inv hs) hsame.symm
  · intro hharmless
    have hR := (alike_bisimulation t).sameRecords ⟨hs, alike_timerAdd hτ' hfail hharmless⟩
    exact hR.symm

/-- A one-shot timer expires while 63 others are armed, and its callback arms another one. -/
def fillInCallback : List Action :=
  (List.range 65).map .timerNew ++ .timerAdd 0 ⟨1, 0⟩ false 7 (.ofSec 100) true ::
    (List.range 63).map (fun i ↦ .timerAdd (i + 1) ⟨1000, 0⟩ false 0 (.ofSec 100) true) ++
    [.runEnter (.ofSec 102), .updateTime (.ofSec 102), .processTurn,
      .timerAdd 64 ⟨1000, 0⟩ false 0 (.ofSec 102) true]

/-- The callback deletes that timer and returns; the loop goes on until 104 seconds. -/
def returnAndWait : List Action :=
  [.timerDel 64, .callbackReturn (.ofSec 102), .processTurn, .poll, .nextIteration,
    .updateTime (.ofSec 104), .processTurn]

/-- The callback of the one-shot timer fails to arm it as a one-shot timer again, with another delay
and another callback: what is recorded afterwards is recorded without the call as well. -/
theorem failedAdd_unobservable_iff_oneShot :
    ∃ s τ, Reachable step anyStep init s ∧ s.control = .timerCallback 0 ∧
      s.liveTimer 0 = some τ ∧ (τ.after, τ.callback) = (⟨1, 0⟩, 7) ∧
      (s.timerAdd 0 τ ⟨2, 0⟩ false 9 (.ofSec 102) false).2 = .outOfMemory ∧
      ∃ z, Run (recording step observations) anyStep
        ((s.timerAdd 0 τ ⟨2, 0⟩ false 9 (.ofSec 102) false).1, []) returnAndWait
          (z, [.returned .success, .polled ⟨998, 0⟩]) := by
  have hcall : ((exec step anyStep init fillInCallback).bind fun s ↦ (s.liveTimer 0).map fun τ ↦
      (s.control, τ.repeats, (τ.after, τ.callback),
        (s.timerAdd 0 τ ⟨2, 0⟩ false 9 (.ofSec 102) false).2)) =
      some (.timerCallback 0, false, (⟨1, 0⟩, 7), .outOfMemory) := by decide +kernel
  have hwithout : ((exec step anyStep init fillInCallback).bind fun s ↦
      (exec (recording step observations) anyStep (s, []) returnAndWait).map Prod.snd) =
      some [.returned .success, .polled ⟨998, 0⟩] := by decide +kernel
  obtain ⟨s, hexec, hrest⟩ := Option.bind_eq_some_iff.mp hcall
  obtain ⟨τ, hτ, heq⟩ := Option.map_eq_some_iff.mp hrest
  rw [Prod.mk.injEq, Prod.mk.injEq, Prod.mk.injEq] at heq
  obtain ⟨hc, honce, hfields, hcode⟩ := heq
  rw [hexec, Option.bind_some] at hwithout
  obtain ⟨⟨z, l⟩, hrun, rfl⟩ := Option.map_eq_some_iff.mp hwithout
  have hreach : Reachable step anyStep init s := Reachable.of_exec hexec
  have hfail : (s.timerAdd 0 τ ⟨2, 0⟩ false 9 (.ofSec 102) false).2 ≠ .success := by
    rw [hcode]
    exact nofun
  have hharmless : Harmless s 0 τ ⟨2, 0⟩ false 9 :=
    Or.inr (Or.inr (Or.inr (Or.inl ⟨honce, rfl⟩)))
  have hsame := (failedAdd_unobservable_iff hreach hτ hfail).mpr hharmless
  exact ⟨s, τ, hreach, hc, hτ, hfields, hcode, (hsame _ _).mpr ⟨z, Run.of_exec hrun⟩⟩

/-- The callback then tries to arm its own timer, as a repeating one. The call fails for lack of
memory, and the timer fires again all the same, two seconds later and with the new callback; without
the call it does not. -/
theorem exists_failedAdd_rearms :
    ∃ s τ, Reachable step anyStep init s ∧ s.inUserCode = true ∧ s.liveTimer 0 = some τ ∧
      τ.invokingCallback = true ∧ τ.repeats = false ∧
      (s.timerAdd 0 τ ⟨2, 0⟩ true 9 (.ofSec 102) false).2 = .outOfMemory ∧
      (exec (recording step observations) anyStep
        ((s.timerAdd 0 τ ⟨2, 0⟩ true 9 (.ofSec 102) false).1, []) returnAndWait).map Prod.snd =
          some [.returned .success, .polled ⟨2, 0⟩,
            .fired ⟨104, 0⟩ (.timer 0) (some (9, ⟨2, 0⟩, true))] ∧
      (exec (recording step observations) anyStep (s, []) returnAndWait).map Prod.snd =
        some [.returned .success, .polled ⟨998, 0⟩] := by
  have hcall : ((exec step anyStep init fillInCallback).bind fun s ↦ (s.liveTimer 0).map fun τ ↦
      (s.inUserCode, τ.invokingCallback, τ.repeats,
        (s.timerAdd 0 τ ⟨2, 0⟩ true 9 (.ofSec 102) false).2)) =
      some (true, true, false, .outOfMemory) := by decide +kernel
  have hwith : ((exec step anyStep init fillInCallback).bind fun s ↦ (s.liveTimer 0).bind fun τ ↦
      (exec (recording step observations) anyStep
        ((s.timerAdd 0 τ ⟨2, 0⟩ true 9 (.ofSec 102) false).1, []) returnAndWait).map Prod.snd) =
      some [.returned .success, .polled ⟨2, 0⟩,
        .fired ⟨104, 0⟩ (.timer 0) (some (9, ⟨2, 0⟩, true))] := by decide +kernel
  have hwithout : ((exec step anyStep init fillInCallback).bind fun s ↦
      (exec (recording step observations) anyStep (s, []) returnAndWait).map Prod.snd) =
      some [.returned .success, .polled ⟨998, 0⟩] := by decide +kernel
  obtain ⟨s, hexec, hrest⟩ := Option.bind_eq_some_iff.mp hcall
  obtain ⟨τ, hτ, heq⟩ := Option.map_eq_some_iff.mp hrest
  simp only [Prod.mk.injEq] at heq
  obtain ⟨huser, hinvoking, honce, hcode⟩ := heq
  rw [hexec, Option.bind_some] at hwith hwithout
  rw [hτ, Option.bind_some] at hwith
  exact ⟨s, τ, Reachable.of_exec hexec, huser, hτ, hinvoking, honce, hcode, hwith, hwithout⟩

end TimerLoop

end Nanoev
