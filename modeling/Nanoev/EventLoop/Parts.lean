import Nanoev.EventLoop.Nodes

/-!
# The parts of the loop

Joined to one loop, the timers and the I/O events take the steps that they take by themselves
(`timers_reachable`, `io_reachable`), so that everything proved about either of them holds in the
loop. Conversely the joint loop does not keep them from anything: it is at the same point of
`nanoev_loop_run` on both sides (`Agree`), a function on an I/O event that is possible there is
possible in the loop (`exists_step_of_local`), and `timers_process` can always call the callback of
the node that is due, since the event of the node is still there (`exists_turn`). `Joined` is all of
this, and holds in every state of every run. Without it a statement about all runs of the joint loop
could hold because the loop is stuck.
-/

namespace Nanoev

open Transition

namespace EventLoop

variable {s s' : EventLoop} {timers timers' : TimerLoop}

/-! ## Runs of the parts -/

theorem timers_run {a : Action} (h : s.step a = some s') :
    ∃ as, Run TimerLoop.step anyStep s.timers as s'.timers := by
  cases a with
  | timer a =>
    obtain ⟨-, h⟩ := Option.ite_none_right_eq_some.mp h
    obtain ⟨timers', hstep, rfl⟩ := Option.map_eq_some_iff.mp h
    have htimers : (s.afterTimer timers' a).timers = timers' := by cases a <;> rfl
    rw [htimers]
    exact ⟨[a], Run.single trivial hstep⟩
  | io a clock alloc =>
    obtain ⟨io', -, h⟩ := Option.bind_eq_some_iff.mp h
    obtain ⟨script, -, h⟩ := Option.bind_eq_some_iff.mp h
    obtain ⟨timers', hexec, rfl⟩ := Option.map_eq_some_iff.mp h
    exact ⟨script, Run.of_exec hexec⟩

theorem timers_reachable {ok : EventLoop → Action → Prop} (h : Reachable step ok init s) :
    Reachable TimerLoop.step anyStep TimerLoop.init s.timers := by
  refine h.invariant (I := fun s ↦ Reachable TimerLoop.step anyStep TimerLoop.init s.timers)
    Reachable.refl fun s a s' hs _ hstep ↦ ?_
  obtain ⟨as, hrun⟩ := timers_run hstep
  exact hs.trans_run hrun

theorem io_reachable {ok : EventLoop → Action → Prop} (h : Reachable step ok init s) :
    Reachable IoLoop.step anyStep IoLoop.init s.io := by
  refine h.invariant (I := fun s ↦ Reachable IoLoop.step anyStep IoLoop.init s.io)
    Reachable.refl fun s a s' hs _ hstep ↦ ?_
  cases a with
  | timer a =>
    obtain ⟨-, hstep⟩ := Option.ite_none_right_eq_some.mp hstep
    obtain ⟨timers', -, rfl⟩ := Option.map_eq_some_iff.mp hstep
    have hio : (s.afterTimer timers' a).io = s.io := by cases a <;> rfl
    rw [hio]
    exact hs
  | io a clock alloc =>
    obtain ⟨io', hio, hstep⟩ := Option.bind_eq_some_iff.mp hstep
    obtain ⟨script, -, hstep⟩ := Option.bind_eq_some_iff.mp hstep
    obtain ⟨timers', -, rfl⟩ := Option.map_eq_some_iff.mp hstep
    exact hs.tail trivial hio

/-! ## Where the loop is -/

/-- The two parts are at the same point of `nanoev_loop_run`. -/
def agree : Control → Phase → Bool
  | .idle, .idle => true
  | .updating, .timers | .processing, .timers | .waiting, .timers => true
  | .timerCallback _, .timerCallback | .tcpCallback, .timerCallback => true
  | .polling, .waiting | .polling, .polling _ _ | .polling, .dispatching | .polling, .ioCallback =>
    true
  | _, _ => false

/-- The actions of the I/O events in which the timers only follow. -/
def isLocal : IoLoop.Action → Bool
  | .runEnter | .timerFires | .timeoutFires .. | .callbackReturn | .processEndgame | .nextRound
  | .epollFails | .runExit => false
  | _ => true

theorem isLocal_withRoom (room : Bool) (a : IoLoop.Action) :
    isLocal (withRoom room a) = isLocal a := by
  cases a <;> rfl

theorem agree_dispatched (b : Bool) :
    agree .polling (if b then .ioCallback else .dispatching) = true := by
  cases b <;> rfl

theorem agree_of_local {io io' : IoLoop} {a : IoLoop.Action} {c : Control} (h : io.Steps a io')
    (ha : isLocal a = true) (hc : agree c io.phase = true) : agree c io'.phase = true := by
  have hpolling : ∀ {p : Phase}, io.phase = p → (∀ c, agree c p = true → c = .polling) →
      c = .polling := by
    intro p hp hall
    rw [hp] at hc
    exact hall c hc
  cases h with
  | new | tcp | udp | asyncStart | asyncSend | dispatchNone hp => exact hc
  | free =>
    rw [IoLoop.eventFree_eq]
    exact hc
  | runEnter | timerFires | timeoutFires | timerReturn | ioReturn | processEndgame | epollFails
  | nextRound | runExit => cases ha
  | takeQueued hp | epollWait hp | report hp | offerTcp hp | offerUdp hp | offerAsync hp
  | offerFull hp | pollReturn hp =>
    obtain rfl := hpolling hp (by intro c h; cases c <;> first | rfl | cases h)
    rfl
  | dispatchTcp hp | dispatchUdp hp | dispatchAsync hp =>
    obtain rfl := hpolling hp (by intro c h; cases c <;> first | rfl | cases h)
    exact agree_dispatched _

def Agree (s : EventLoop) : Prop := agree s.timers.control s.io.phase = true

theorem phase_eq_timers {c : Control} {p : Phase} (h : agree c p = true)
    (hc : c = .updating ∨ c = .processing ∨ c = .waiting) : p = .timers := by
  rcases hc with rfl | rfl | rfl <;> cases p <;> first | rfl | cases h

theorem control_eq_polling {c : Control} (h : agree c .ioCallback = true) : c = .polling := by
  cases c <;> first | rfl | cases h

theorem Agree.timer {a : TimerLoop.Action} (hg : s.Agree) (hs : s.Inv)
    (ha : s.timerAlone a = true) (h : s.timers.step a = some timers') :
    agree timers'.control s.io.phase = true := by
  unfold Agree at hg
  cases a with
  | processTurn =>
    obtain ⟨hc, rfl⟩ := of_guard h
    rw [phase_eq_timers hg (.inr (.inl hc)),
      TimerLoop.processTurn_of_due_none (of_decide_eq_true ha)]
    rfl
  | updateTime clock =>
    obtain ⟨hc, rfl⟩ := of_guard h
    rw [phase_eq_timers hg (.inl hc)]
    rfl
  | timerNew | timerAdd | timerDel | timerFree =>
    cases TimerLoop.step_effect hs.timers h <;> exact hg
  | _ => cases ha

theorem control_of_return {clock : Timeval.Reading} (hs : timers.Inv)
    (h : timers.step (.callbackReturn clock) = some timers') : timers'.control = .processing := by
  cases TimerLoop.step_effect hs h <;> rfl

theorem phase_expired (b : Bool) :
    (if b then Phase.timerCallback else .timers) = .timerCallback ∨
      (if b then Phase.timerCallback else .timers) = .timers := by
  cases b
  · exact .inr rfl
  · exact .inl rfl

theorem Agree.io {io' : IoLoop} {a : IoLoop.Action} {clock : Timeval.Reading} {alloc : Bool}
    {script : List TimerLoop.Action} (hg : s.Agree) (hs : s.Inv)
    (hio : s.io.step (withRoom (s.timers.room alloc) a) = some io')
    (hscript : s.timerPart io' clock alloc a = some script)
    (hexec : exec TimerLoop.step anyStep s.timers script = some timers') :
    agree timers'.control io'.phase = true := by
  unfold Agree at hg
  have hlocal : isLocal a = true → script = heapActions s.io io' a clock alloc →
      agree timers'.control io'.phase = true := by
    rintro ha rfl
    obtain ⟨-, -, hcontrol, -⟩ := hs.heapActions hio hexec
    rw [hcontrol]
    refine agree_of_local (IoLoop.step_eq_some hio) ?_ hg
    rw [isLocal_withRoom]
    exact ha
  cases a with
  | runEnter | nextRound | runExit | epollFails =>
    cases hscript
    obtain ⟨-, rfl⟩ := of_guard hio
    obtain ⟨-, rfl⟩ := of_guard (exec_single hexec)
    rfl
  | processEndgame =>
    cases hscript
    obtain ⟨-, rfl⟩ := of_guard (exec_single hexec)
    cases IoLoop.step_eq_some hio
    rfl
  | timerFires =>
    simp only [timerPart] at hscript
    split at hscript
    · next t hdue =>
      cases hscript
      obtain ⟨-, rfl⟩ := of_guard hio
      obtain ⟨-, rfl⟩ := of_guard (exec_single hexec)
      rw [TimerLoop.processTurn_of_due_timer hdue, TimerLoop.invokeTimer]
      split <;> rfl
    · cases hscript
  | timeoutFires i d sys =>
    obtain ⟨hdue, hscript⟩ := Option.ite_none_right_eq_some.mp hscript
    obtain rfl := Option.some.inj hscript
    obtain ⟨-, -, -, hcontrol⟩ := expired_of_exec hs.timers hdue hexec
    have hphase : io'.phase = .timerCallback ∨ io'.phase = .timers := by
      cases IoLoop.step_eq_some hio with
      | timeoutFires => exact phase_expired _
    rw [hcontrol]
    rcases hphase with hphase | hphase <;> rw [hphase] <;> rfl
  | callbackReturn =>
    obtain rfl := Option.some.inj hscript
    cases IoLoop.step_eq_some hio with
    | timerReturn hp =>
      rw [if_pos hp] at hexec
      rw [control_of_return hs.timers (exec_single hexec)]
      rfl
    | ioReturn hp =>
      rw [hp] at hexec hg
      cases hexec
      rw [control_eq_polling hg]
      rfl
  | _ => exact hlocal rfl (Option.some.inj hscript).symm

/-- **One step.** -/
theorem Agree.step {a : Action} (hg : s.Agree) (hs : s.Inv) (h : s.step a = some s') :
    s'.Agree := by
  cases a with
  | timer a =>
    obtain ⟨ha, h⟩ := Option.ite_none_right_eq_some.mp h
    obtain ⟨timers', hstep, rfl⟩ := Option.map_eq_some_iff.mp h
    have hagree := hg.timer hs ha hstep
    cases a <;> exact hagree
  | io a clock alloc =>
    obtain ⟨io', hio, h⟩ := Option.bind_eq_some_iff.mp h
    obtain ⟨script, hscript, h⟩ := Option.bind_eq_some_iff.mp h
    obtain ⟨timers', hexec, rfl⟩ := Option.map_eq_some_iff.mp h
    exact hg.io hs hio hscript hexec

theorem agree_of_reachable {ok : EventLoop → Action → Prop}
    (h : Reachable EventLoop.step ok init s) :
    s.Inv ∧ s.Agree := by
  refine h.invariant (I := fun s ↦ s.Inv ∧ s.Agree) ⟨init_inv, rfl⟩ ?_
  rintro s a s' ⟨hs, hg⟩ - hstep
  exact ⟨hs.step hstep, hg.step hs hstep⟩

/-! ## What is possible -/

theorem step_io {a : IoLoop.Action} {io' : IoLoop} {clock : Timeval.Reading} {alloc : Bool}
    {script : List TimerLoop.Action}
    (hio : s.io.step (withRoom (s.timers.room alloc) a) = some io')
    (hscript : s.timerPart io' clock alloc a = some script)
    (hexec : exec TimerLoop.step anyStep s.timers script = some timers') :
    s.step (.io a clock alloc) = some (s.afterIo timers' io') := by
  rw [EventLoop.step, hio, Option.bind_some, hscript, Option.bind_some, hexec, Option.map_some]

theorem exists_exec_nodeActions {e : ℕ} {d : Dir} {before after : Bool} {delay : Timeval}
    {clock : Timeval.Reading} {alloc : Bool} (hs : timers.Inv) (huser : timers.inUserCode = true)
    (hdelay : before = false → after = true → invalidDelay delay = false) :
    ∃ timers', exec TimerLoop.step anyStep timers
        (nodeActions e d before after delay clock alloc) = some timers' ∧
      timers'.Inv ∧ timers'.inUserCode = true := by
  have hsingle : ∀ {b : TimerLoop.Action}, (∃ timers', timers.step b = some timers' ∧
      timers'.control = timers.control) → ∃ timers',
      exec TimerLoop.step anyStep timers [b] = some timers' ∧ timers'.Inv ∧
        timers'.inUserCode = true := by
    rintro b ⟨timers', hstep, hcontrol⟩
    refine ⟨timers', ?_, (TimerLoop.step_effect hs hstep).inv hs, ?_⟩
    · rw [exec, if_pos (show anyStep timers b from trivial), hstep]
      rfl
    · rw [TimerLoop.inUserCode, hcontrol]
      exact huser
  cases before <;> cases after
  · exact ⟨timers, rfl, hs, huser⟩
  · refine hsingle ⟨_, if_pos ⟨huser, hdelay rfl rfl⟩, ?_⟩
    rcases TimerLoop.nodeAddBy_cases timeAdd timers (.tcp e d.isWrite) delay clock alloc with
      ⟨-, heq⟩ | ⟨-, -, -, heq⟩ | ⟨-, capacity, -, heq⟩ <;> rw [heq] <;> rfl
  · exact hsingle ⟨_, if_pos huser, rfl⟩
  · exact ⟨timers, rfl, hs, huser⟩

theorem inUserCode_of_agree (hg : s.Agree)
    (hp : s.io.phase.client = true ∨ s.io.phase = .dispatching) : s.timers.inUserCode = true := by
  unfold Agree at hg
  unfold TimerLoop.inUserCode
  cases hc : s.timers.control with
  | updating | processing | waiting =>
    rw [hc] at hg
    rw [phase_eq_timers hg (by simp)] at hp
    rcases hp with hp | hp <;> cases hp
  | _ => rfl

/-- A function is called on a TCP event only where user code may run or a completion is worked
off. -/
theorem phase_of_subject {io io' : IoLoop} {a : IoLoop.Action} {e : ℕ} (h : io.Steps a io')
    (ha : isLocal a = true) (he : io.subject a = some e) :
    io.phase.client = true ∨ io.phase = .dispatching := by
  cases h with
  | free _ _ hp | tcp _ _ hp => exact .inl hp
  | timeoutFires => cases ha
  | dispatchTcp hp | dispatchUdp hp | dispatchAsync hp | dispatchNone hp => exact .inr hp
  | _ => cases he

theorem exists_step_of_local {a : IoLoop.Action} {io' : IoLoop} {clock : Timeval.Reading}
    {alloc : Bool} (hs : s.Inv) (hg : s.Agree) (ha : isLocal a = true)
    (hio : s.io.step (withRoom (s.timers.room alloc) a) = some io') :
    ∃ s', s.step (.io a clock alloc) = some s' ∧ s'.io = io' := by
  have hexec : ∃ timers', exec TimerLoop.step anyStep s.timers
      (heapActions s.io io' a clock alloc) = some timers' := by
    unfold heapActions
    split
    · next e he =>
      have hsteps := IoLoop.step_eq_some hio
      have huser := inUserCode_of_agree hg (phase_of_subject hsteps
        ((isLocal_withRoom _ _).trans ha) ((subject_withRoom _ _ _).trans he))
      have hdelay : ∀ d, s.io.armedAt e d = false → io'.armedAt e d = true →
          invalidDelay (delay a) = false := by
        intro d hoff hon
        obtain ⟨c, sys, heq, -, ⟨after, hafter, hvalid⟩, -⟩ :=
          (hsteps.turn hs.wf hs.timed e).arms hoff hon
        cases a with
        | tcp i c' sys' =>
          obtain ⟨-, rfl, -⟩ := IoLoop.Action.tcp.inj heq
          rw [delay, hafter]
          exact hvalid
        | _ => cases heq
      obtain ⟨timers₁, h₁, hinv₁, huser₁⟩ :=
        exists_exec_nodeActions hs.timers huser (hdelay .read)
      obtain ⟨timers₂, h₂, -, -⟩ := exists_exec_nodeActions hinv₁ huser₁ (hdelay .write)
      exact ⟨timers₂, by rw [exec_append, h₁]; exact h₂⟩
    · exact ⟨s.timers, rfl⟩
  obtain ⟨timers', hexec⟩ := hexec
  have hscript : s.timerPart io' clock alloc a = some (heapActions s.io io' a clock alloc) := by
    cases a <;> first | rfl | cases ha
  exact ⟨s.afterIo timers' io', step_io hio hscript hexec, rfl⟩

theorem armed_of_due {n : NodeRef} (hs : timers.Inv) (h : timers.due = some n) :
    (timers.timers.armed n).isSome = true := by
  unfold TimerLoop.due at h
  split_ifs at h with hsize
  obtain rfl := Option.some.inj h
  rw [TimerMinHeap.armed_root hs.heap hsize]
  rfl

theorem exists_exec_expired {i : ℕ} {d : Dir} {p : Prop} [Decidable p] {clock : Timeval.Reading}
    (hc : timers.control = .processing) (hdue : timers.due = some (.ofDir i d)) :
    ∃ timers', exec TimerLoop.step anyStep timers
      (.processTurn :: if p then [.callbackReturn clock] else []) = some timers' := by
  have hstep : timers.step .processTurn = some timers.processTurn := if_pos hc
  have hcontrol : timers.processTurn.control = .tcpCallback := by
    rw [TimerLoop.processTurn_of_due_tcp hdue]
  rw [exec, if_pos (show anyStep timers _ from trivial), hstep, Option.bind_some]
  split
  · refine ⟨{ timers.processTurn with control := .processing }, ?_⟩
    rw [exec, if_pos (show anyStep timers.processTurn _ from trivial), TimerLoop.step,
      TimerLoop.stepBy, hcontrol]
    rfl
  · exact ⟨timers.processTurn, rfl⟩

/-- The next turn of the loop of `timers_process`: the end of the loop, or the callback of the node
that is due. -/
def turn (s : EventLoop) (sys : Sys) (clock : Timeval.Reading) (alloc : Bool) : Action :=
  match s.timers.due with
  | none => .timer .processTurn
  | some (.timer _) => .io .timerFires clock alloc
  | some (.tcp e w) => .io (.timeoutFires e (if w then .write else .read) sys) clock alloc

theorem exists_turn (hr : Reachable EventLoop.step anyStep init s)
    (hc : s.timers.control = .processing) (sys : Sys) (clock : Timeval.Reading) (alloc : Bool) :
    ∃ s', s.step (s.turn sys clock alloc) = some s' := by
  obtain ⟨hs, hg⟩ := agree_of_reachable hr
  have hphase : s.io.phase = .timers := phase_eq_timers hg (.inr (.inl hc))
  have hstep : s.timers.step .processTurn = some s.timers.processTurn := if_pos hc
  unfold turn
  split
  · next hdue =>
    refine ⟨s.afterTimer s.timers.processTurn .processTurn,
      (if_pos (decide_eq_true hdue)).trans ?_⟩
    rw [hstep]
    rfl
  · next t hdue =>
    have hio : s.io.step .timerFires = some { s.io with phase := .timerCallback } := if_pos hphase
    have hpart : s.timerPart { s.io with phase := .timerCallback } clock alloc .timerFires =
        some [.processTurn] := by
      rw [timerPart, hdue]
    have hexec : exec TimerLoop.step anyStep s.timers [.processTurn] =
      some s.timers.processTurn := by
      rw [exec, if_pos (show anyStep s.timers _ from trivial), hstep]
      rfl
    exact ⟨_, step_io hio hpart hexec⟩
  · next e w hdue =>
    -- the node is in the heap, so the TCP event has its timeout armed and is there
    obtain ⟨d, rfl, hd⟩ : ∃ d : Dir, w = d.isWrite ∧ (if w then .write else .read) = d := by
      cases w
      · exact ⟨.read, rfl, rfl⟩
      · exact ⟨.write, rfl, rfl⟩
    rw [hd]
    have harmed : s.io.armedAt e d = true := by
      rw [← hs.nodes]
      exact armed_of_due hs.timers hdue
    obtain ⟨x, hx, hactive⟩ := IoLoop.armedAt_eq_true_iff.mp harmed
    obtain ⟨t, ht, rfl⟩ := IoLoop.exists_of_timing hx
    rw [Tcp.timing_timeout] at hactive
    have hio : s.io.step (.timeoutFires e d sys) = some (s.io.timeoutFires e t d sys) := by
      rw [IoLoop.step, ht]
      exact if_pos ⟨hphase, hactive⟩
    have hpart : s.timerPart (s.io.timeoutFires e t d sys) clock alloc (.timeoutFires e d sys) =
        some (.processTurn :: if (s.io.timeoutFires e t d sys).phase = .timers then
          [.callbackReturn clock] else []) := if_pos hdue
    obtain ⟨timers', hexec⟩ : ∃ timers', exec TimerLoop.step anyStep s.timers
        (.processTurn :: if (s.io.timeoutFires e t d sys).phase = .timers then
          [.callbackReturn clock] else []) = some timers' := exists_exec_expired hc hdue
    exact ⟨_, step_io hio hpart hexec⟩

/-- The parts are in states that they reach by themselves, and can go on as they do by
themselves. -/
structure Joined (s : EventLoop) : Prop where
  timers : Reachable TimerLoop.step anyStep TimerLoop.init s.timers
  io : Reachable IoLoop.step anyStep IoLoop.init s.io
  calls : ∀ a io' clock alloc, isLocal a = true →
    s.io.step (withRoom (s.timers.room alloc) a) = some io' →
      ∃ s', s.step (.io a clock alloc) = some s' ∧ s'.io = io'
  turn : s.timers.control = .processing →
    ∀ sys clock alloc, ∃ s', s.step (s.turn sys clock alloc) = some s'

theorem joined_of_reachable (h : Reachable EventLoop.step anyStep init s) : s.Joined := by
  obtain ⟨hs, hg⟩ := agree_of_reachable h
  exact ⟨timers_reachable h, io_reachable h, fun _ _ _ _ ↦ exists_step_of_local hs hg,
    fun hc ↦ exists_turn h hc⟩

end EventLoop

end Nanoev
