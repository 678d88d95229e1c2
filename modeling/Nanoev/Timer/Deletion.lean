import Nanoev.Timer.LoopInvariant

/-!
# Deleting a timer

`nanoev_timer_del` takes an armed timer out of the heap. Inside the timer's own callback it relies
on `timers_process` having done so already and only clears the repeat flag, which keeps the timer
from being put back when the callback returns. Two things can make that fail: the callback has
re-armed the timer before it deletes it, so that the timer is in the heap again, or it asks for a
repeating timer after the deletion and the request fails for lack of memory, which leaves the repeat
flag set.

`Stopped` is the invariant of the runs in which neither happens: a timer whose last successful call
was a deletion is not armed and, while its callback is running, not repeating.
-/

namespace Nanoev

open Transition

/-- Deletions are final in a log, newest entry first: between a deletion of a timer and a later
invocation of its callback stands a successful `nanoev_timer_add` on it. -/
def DelFinal (log : List TimerObs) : Prop :=
  ∀ t post mid pre, log = post ++ .fired (.timer t) :: mid ++ .deleted t :: pre → .added t ∈ mid

/-- The last successful call on the timer was a deletion. -/
def stoppedIn (t : ℕ) : List TimerObs → Bool
  | [] => false
  | .added u :: log => u ≠ t && stoppedIn t log
  | .deleted u :: log => u = t || stoppedIn t log
  | .fired _ :: log => stoppedIn t log

theorem delFinal_nil : DelFinal [] := by
  intro t post mid pre h
  simp at h

theorem stoppedIn_append {t : ℕ} {mid pre : List TimerObs} (h : .added t ∉ mid) :
    stoppedIn t (mid ++ .deleted t :: pre) = true := by
  induction mid with
  | nil => simp [stoppedIn]
  | cons o mid ih =>
    rw [List.mem_cons, not_or] at h
    obtain ⟨ho, hmid⟩ := h
    rw [List.cons_append]
    cases o with
    | added u =>
      have hne : u ≠ t := fun heq ↦ ho (heq ▸ rfl)
      simp [stoppedIn, hne, ih hmid]
    | deleted u => simp [stoppedIn, ih hmid]
    | fired n => exact ih hmid

/-- A log stays final when a callback is only added for a timer that is not stopped. -/
theorem DelFinal.cons {log : List TimerObs} (h : DelFinal log) {o : TimerObs}
    (ho : ∀ t, o = .fired (.timer t) → stoppedIn t log = false) : DelFinal (o :: log) := by
  intro t post mid pre heq
  cases post with
  | nil =>
    rw [List.nil_append, List.cons_append] at heq
    obtain ⟨rfl, hlog⟩ := List.cons.inj heq
    by_contra hmid
    have hstopped := ho t rfl
    rw [hlog, stoppedIn_append hmid] at hstopped
    cases hstopped
  | cons o' post => exact h t post mid pre (List.cons.inj heq).2

namespace TimerLoop

open TimerMinHeap

variable {s s' : TimerLoop}

/-- The two situations in which a deletion is not final: the callback of the timer deletes it after
having re-armed it, or the callback has deleted it, asks for a repeating timer and gets no
memory. -/
def delHolds (s : TimerLoop) : Action → Bool
  | .timerDel t => !(s.control = .timerCallback t && s.timers.timerNodeActive (.timer t))
  | .timerAdd t after repeats _ _ alloc =>
    !(s.control = .timerCallback t && stoppedIn t s.log && repeats && !invalidDelay after &&
      !alloc && decide (s.timers.capacity ≤ s.timers.size))
  | _ => true

structure Stopped (s : TimerLoop) : Prop where
  final : DelFinal s.log
  unarmed : ∀ t, stoppedIn t s.log = true → s.timers.armed (.timer t) = none
  single : ∀ t τ, stoppedIn t s.log = true → s.control = .timerCallback t → s.timer t = some τ →
    τ.repeats = false

theorem init_stopped : init.Stopped := ⟨delFinal_nil, fun _ _ ↦ rfl, nofun⟩

/-- A step that adds nothing to the log, arms no stopped timer and makes none repeating. -/
theorem Stopped.of_log_eq (hs : s.Stopped) (hlog : s'.log = s.log)
    (harmed : ∀ t, stoppedIn t s.log = true → s.timers.armed (.timer t) = none →
      s'.timers.armed (.timer t) = none)
    (hsingle : ∀ t τ', stoppedIn t s.log = true → s'.control = .timerCallback t →
      s'.timer t = some τ' → τ'.repeats = false ∨ (s.control = .timerCallback t ∧
        ∃ τ, s.timer t = some τ ∧ τ'.repeats = τ.repeats)) : s'.Stopped := by
  refine ⟨hlog ▸ hs.final, fun t ht ↦ ?_, fun t τ' ht hc hτ' ↦ ?_⟩
  · rw [hlog] at ht
    exact harmed t ht (hs.unarmed t ht)
  · rw [hlog] at ht
    rcases hsingle t τ' ht hc hτ' with hrep | ⟨hc₀, τ, hτ, hrep⟩
    · exact hrep
    · rw [hrep]
      exact hs.single t τ ht hc₀ hτ

/-- A step that leaves the log, the timer events and the running callback alone and arms no timer
event. -/
theorem Stopped.quiet (hs : s.Stopped) (hlog : s'.log = s.log) (htimer : s'.timer = s.timer)
    (hcontrol : ∀ t, s'.control = .timerCallback t → s.control = .timerCallback t)
    (harmed : ∀ t, s.timers.armed (.timer t) = none → s'.timers.armed (.timer t) = none) :
    s'.Stopped :=
  hs.of_log_eq hlog (fun t _ ↦ harmed t) fun t τ' _ hc hτ' ↦
    Or.inr ⟨hcontrol t hc, τ', htimer ▸ hτ', rfl⟩

theorem armed_erase_eq_none (hs : s.Inv) (n : NodeRef) {m : NodeRef}
    (hm : s.timers.armed m = none) : (s.erase n).timers.armed m = none := by
  rw [armed_erase hs, Function.update_apply]
  split_ifs
  · rfl
  · exact hm

theorem stoppedIn_eq_false_of_armed (hs : s.Stopped) {t : ℕ} {tv : Timeval}
    (h : s.timers.armed (.timer t) = some tv) : stoppedIn t s.log = false := by
  by_contra hne
  rw [hs.unarmed t (Bool.eq_true_of_not_eq_false hne)] at h
  cases h

/-! ## The kinds of steps -/

/-- The fields of one timer are written. If it is stopped and its callback runs, it must not become
repeating. -/
theorem Stopped.write {t : ℕ} {o : Option Timer} (hd : s.Stopped) (hlog : s'.log = s.log)
    (hcontrol : s'.control = s.control) (htimer : s'.timer = Function.update s.timer t o)
    (harmed : ∀ u, s.timers.armed (.timer u) = none → s'.timers.armed (.timer u) = none)
    (hsingle : ∀ τ, o = some τ → stoppedIn t s.log = true → s.control = .timerCallback t →
      τ.repeats = false) : s'.Stopped := by
  refine hd.of_log_eq hlog (fun u _ ↦ harmed u) fun u τ' hu hc hτ' ↦ ?_
  rw [hcontrol] at hc
  rw [htimer, Function.update_apply] at hτ'
  split_ifs at hτ' with heq
  · subst heq
    exact Or.inl (hsingle τ' hτ' hu hc)
  · exact Or.inr ⟨hc, τ', hτ', rfl⟩

theorem Stopped.added {t : ℕ} {τ : Timer} {expires : Timeval} (hd : s.Stopped)
    (hlog : s'.log = .added t :: s.log) (hcontrol : s'.control = s.control)
    (htimer : s'.timer = Function.update s.timer t (some τ))
    (harmed : s'.timers.armed = Function.update s.timers.armed (.timer t) (some expires)) :
    s'.Stopped := by
  have hne : ∀ u, stoppedIn u s'.log = true → u ≠ t ∧ stoppedIn u s.log = true := by
    intro u hu
    simp only [hlog, stoppedIn, Bool.and_eq_true, decide_eq_true_eq] at hu
    exact ⟨hu.1.symm, hu.2⟩
  refine ⟨hlog ▸ hd.final.cons nofun, fun u hu ↦ ?_, fun u τ' hu hc hτ' ↦ ?_⟩
  · obtain ⟨hut, hu⟩ := hne u hu
    rw [harmed, Function.update_of_ne (by simpa using hut)]
    exact hd.unarmed u hu
  · obtain ⟨hut, hu⟩ := hne u hu
    rw [hcontrol] at hc
    rw [htimer, Function.update_of_ne hut] at hτ'
    exact hd.single u τ' hu hc hτ'

/-- A successful `nanoev_timer_del`: afterwards the timer is not armed and, in its own callback, not
repeating. -/
theorem Stopped.deleted {t : ℕ} (hd : s.Stopped) (hlog : s'.log = .deleted t :: s.log)
    (hcontrol : s'.control = s.control) (hself : s'.timers.armed (.timer t) = none)
    (harmed : ∀ u, s.timers.armed (.timer u) = none → s'.timers.armed (.timer u) = none)
    (hsingle : ∀ τ, s.control = .timerCallback t → s'.timer t = some τ → τ.repeats = false)
    (hother : ∀ u ≠ t, s'.timer u = s.timer u) : s'.Stopped := by
  have hne : ∀ u ≠ t, stoppedIn u s'.log = true → stoppedIn u s.log = true := by
    intro u hut hu
    simpa [hlog, stoppedIn, hut.symm] using hu
  refine ⟨hlog ▸ hd.final.cons nofun, fun u hu ↦ ?_, fun u τ' hu hc hτ' ↦ ?_⟩
  · by_cases heq : u = t
    · subst heq
      exact hself
    · exact harmed u (hd.unarmed u (hne u heq hu))
  · rw [hcontrol] at hc
    by_cases heq : u = t
    · subst heq
      exact hsingle τ' hc hτ'
    · exact hd.single u τ' (hne u heq hu) hc ((hother u heq).symm.trans hτ')

/-- A node fires: it was armed, so it is not the node of a stopped timer. -/
theorem Stopped.fired {n : NodeRef} {tv : Timeval} (hd : s.Stopped)
    (hlog : s'.log = .fired n :: s.log) (hn : s.timers.armed n = some tv)
    (harmed : ∀ u, s.timers.armed (.timer u) = none → s'.timers.armed (.timer u) = none)
    (hcontrol : ∀ u, s'.control = .timerCallback u → n = .timer u) : s'.Stopped := by
  have hnot : ∀ u, n = .timer u → stoppedIn u s.log = false := by
    rintro u rfl
    exact stoppedIn_eq_false_of_armed hd hn
  have hstopped : ∀ u, stoppedIn u s'.log = stoppedIn u s.log := by
    intro u
    rw [hlog]
    rfl
  refine ⟨?_, fun u hu ↦ harmed u (hd.unarmed u ((hstopped u).symm.trans hu)), ?_⟩
  · rw [hlog]
    exact hd.final.cons fun u hu ↦ hnot u (TimerObs.fired.inj hu)
  · intro u τ' hu hc _
    rw [hstopped, hnot u (hcontrol u hc)] at hu
    cases hu

/-- The callback of a timer returns, and a repeating timer is put back: a stopped one is not. -/
theorem Stopped.reinserted {t : ℕ} {τ : Timer} {expires : Timeval} (hd : s.Stopped)
    (hc : s.control = .timerCallback t) (hτ : s.timer t = some τ) (hrep : τ.repeats = true)
    (hlog : s'.log = s.log) (hcontrol : ∀ u, s'.control ≠ .timerCallback u)
    (harmed : s'.timers.armed = Function.update s.timers.armed (.timer t) (some expires)) :
    s'.Stopped := by
  refine hd.of_log_eq hlog (fun u hu hun ↦ ?_) fun u _ _ hcu ↦ absurd hcu (hcontrol u)
  have hut : u ≠ t := by
    rintro rfl
    rw [hd.single u τ hu hc hτ] at hrep
    cases hrep
  rw [harmed, Function.update_of_ne (by simpa using hut), hun]

/-- The failed call has set the repeat flag; this is the second case of `delHolds`. -/
theorem repeats_of_delHolds {t : ℕ} {after : Timeval} {repeats : Bool} {callback : ℕ}
    {clock : Timeval.Reading} {alloc : Bool}
    (hok : s.delHolds (.timerAdd t after repeats callback clock alloc) = true)
    (hafter : after.Normalized) (hcap : s.timers.capacity < s.timers.size + 1)
    (halloc : alloc = false) (hu : stoppedIn t s.log = true) (hc : s.control = .timerCallback t) :
    repeats = false := by
  have hvalid : invalidDelay after = false := invalidDelay_eq_false_iff.mpr hafter
  have hfull : s.timers.capacity ≤ s.timers.size := by omega
  simpa [delHolds, hc, hu, hvalid, halloc, hfull] using hok

/-- **One step.** A step that meets `delHolds` keeps stopped timers stopped. -/
theorem Effect.stopped (hs : s.Inv) (hd : s.Stopped) {a : Action} (hok : s.delHolds a = true)
    (h : Effect s a s') : s'.Stopped := by
  have herase : ∀ n u, s.timers.armed (.timer u) = none →
      (s.erase n).timers.armed (.timer u) = none := fun n u ↦ armed_erase_eq_none hs n
  cases h with
  | timerNew hnone =>
    refine hd.write rfl rfl rfl (fun u hu ↦ ?_) fun τ hτ _ _ ↦ ?_
    · exact (congrFun (armed_timerNodeInit hs.heap (hs.not_mem_of_none hnone)) _).trans hu
    · obtain rfl := Option.some.inj hτ
      rfl
  | addRefused | delRefused => exact hd
  | addFailed hτ hdel hn hafter hcap halloc =>
    refine hd.write rfl rfl rfl (fun u hu ↦ ?_) fun τ' hτ' hu hc ↦ ?_
    · exact (congrFun (armed_setTimeout hn _) _).trans hu
    · obtain rfl := Option.some.inj hτ'
      exact repeats_of_delHolds hok hafter hcap halloc hu hc
  | added hτ hdel hn hafter hcap => exact hd.added rfl rfl rfl (armed_pushLast hs.heap hn _ _)
  | @delInvoking t τ hτ hdel hinv =>
    have hc : s.control = .timerCallback t := (hs.invoking t).mpr ⟨τ, hτ, hinv⟩
    have hun : s.timers.armed (.timer t) = none := by
      simpa [delHolds, hc, timerNodeActive_eq] using hok
    refine hd.deleted rfl rfl hun (fun _ hu ↦ hu) (fun τ' _ hτ' ↦ ?_)
      fun u hut ↦ Function.update_of_ne hut ..
    rw [record_timer, setTimer_timer, Function.update_self] at hτ'
    obtain rfl := Option.some.inj hτ'
    rfl
  | @deleted t τ hτ hinv =>
    refine hd.deleted rfl rfl ?_ (herase _) (fun τ' hc _ ↦ ?_) fun _ _ ↦ rfl
    · exact (congrFun (armed_erase hs _) _).trans (Function.update_self ..)
    · -- the callback is not that of this timer
      obtain ⟨τ', hτ', hinv'⟩ := (hs.invoking t).mp hc
      rw [hτ] at hτ'
      obtain rfl := Option.some.inj hτ'
      rw [hinv] at hinv'
      cases hinv'
  | freeInvoking =>
    refine hd.write rfl rfl rfl (herase _) fun τ' hτ' _ _ ↦ ?_
    obtain rfl := Option.some.inj hτ'
    rfl
  | freed => exact hd.write rfl rfl rfl (herase _) nofun
  | tcpAddRefused hafter => exact hd.quiet rfl rfl (fun _ hc ↦ hc) fun _ hu ↦ hu
  | tcpAddFailed hn hafter =>
    exact hd.quiet rfl rfl (fun _ hc ↦ hc) fun u hu ↦
      (congrFun (armed_setTimeout hn _) _).trans hu
  | tcpAdded hn hafter hcap =>
    refine hd.quiet rfl rfl (fun _ hc ↦ hc) fun u hu ↦ ?_
    refine (congrFun (armed_pushLast hs.heap hn _ _) _).trans ?_
    rw [Function.update_of_ne (by simp), hu]
  | tcpDel => exact hd.quiet rfl rfl (fun _ hc ↦ hc) (herase _)
  | @updateTime clock hc =>
    obtain ⟨-, htimer, hlog, -⟩ := updateTime_frame s clock
    refine hd.quiet hlog htimer nofun fun u hu ↦ (armed_updateTime hs clock _).trans ?_
    rw [hu, Option.map_none]
  | firedTimer hc harmed =>
    exact hd.fired rfl harmed (herase _) fun u hu ↦
      congrArg NodeRef.timer (Control.timerCallback.inj hu)
  | firedTcp hc harmed => exact hd.fired rfl harmed (herase _) nofun
  | returnDeleted hc hτ hdel | returned hc hτ hdel hre =>
    exact hd.of_log_eq rfl (fun _ _ hu ↦ hu) nofun
  | reinserted hc hτ hdel hrep hn hre =>
    exact hd.reinserted hc hτ hrep rfl nofun (armed_pushLast hs.heap hn _ _)
  | runEnter hc | processed hc hnone | tcpReturn hc | poll hc | nextIteration hc | runExit hc =>
    exact hd.quiet rfl rfl nofun fun _ hu ↦ hu

/-- **Deletions are final** in every run in which no timer is deleted by its own callback after
having been re-armed there, and no callback that has deleted its timer then fails for lack of memory
to make it repeating. -/
theorem delFinal_of_delHolds (h : Reachable step (fun s a ↦ s.delHolds a = true) init s) :
    DelFinal s.log := by
  have hboth : s.Inv ∧ s.Stopped := by
    refine h.invariant (I := fun s ↦ s.Inv ∧ s.Stopped) ⟨init_inv, init_stopped⟩ ?_
    rintro s a s' ⟨hs, hd⟩ hok hstep
    have hE := step_effect hs hstep
    exact ⟨hE.inv hs, hE.stopped hs hd hok⟩
  exact hboth.2.final

def delInCallback : List Action :=
  [.timerNew 0, .timerAdd 0 ⟨1, 0⟩ true 0 (.ofSec 100) true, .runEnter (.ofSec 102),
    .updateTime (.ofSec 102), .processTurn, .timerDel 0, .callbackReturn (.ofSec 102), .processTurn,
    .poll, .nextIteration, .updateTime (.ofSec 104), .processTurn]

theorem delFinal_of_delHolds_delInCallback :
    ∃ s, exec step (fun s a ↦ s.delHolds a = true) init delInCallback = some s ∧
      s.log = [.deleted 0, .fired (.timer 0), .added 0] ∧ DelFinal s.log := by
  have hrun : ((exec step (fun s a ↦ s.delHolds a = true) init delInCallback).map
      fun s ↦ s.log) = some [.deleted 0, .fired (.timer 0), .added 0] := by decide +kernel
  obtain ⟨s, hs, hlog⟩ := Option.map_eq_some_iff.mp hrun
  exact ⟨s, hs, hlog, delFinal_of_delHolds (Reachable.of_exec hs)⟩

/-- A timer whose callback re-arms it and then deletes it. -/
def rearmThenDel : List Action :=
  [.timerNew 0, .timerAdd 0 ⟨1, 0⟩ false 0 (.ofSec 100) true, .runEnter (.ofSec 102),
    .updateTime (.ofSec 102), .processTurn, .timerAdd 0 ⟨1, 0⟩ false 0 (.ofSec 102) true,
    .timerDel 0, .callbackReturn (.ofSec 102), .processTurn, .poll, .nextIteration,
    .updateTime (.ofSec 104), .processTurn]

/-- The callback is invoked once more, after the deletion. -/
theorem rearmThenDel_not_delFinal :
    ∃ s, Reachable step anyStep init s ∧
      s.log = [.fired (.timer 0), .deleted 0, .added 0, .fired (.timer 0), .added 0] ∧
      ¬DelFinal s.log := by
  have hrun : ((exec step anyStep init rearmThenDel).map fun s ↦ s.log) =
      some [.fired (.timer 0), .deleted 0, .added 0, .fired (.timer 0), .added 0] := by
    decide +kernel
  obtain ⟨s, hs, hlog⟩ := Option.map_eq_some_iff.mp hrun
  refine ⟨s, Reachable.of_exec hs, hlog, fun hfinal ↦ ?_⟩
  have hmem := hfinal 0 [] [] [.added 0, .fired (.timer 0), .added 0] hlog
  cases hmem

end TimerLoop

end Nanoev
