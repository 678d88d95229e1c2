import Nanoev.EventLoop.Parts
import Nanoev.Timer.Clock
import Nanoev.Transition.Simulation

/-!
# What timers are for

A timer counts down. `Countdown` is a set of timers, each with the time that is left to it, and
nothing else: no heap, no expiry, no position in an array. A reading of the clock in the course of a
run takes its forward movement off the time of every timer; a timer whose time is over and that has
no more time left than any other one may be fired, and the loop goes on to sleep when there is none,
for as long as the next timer has left.

Where the source departs from a plain countdown, `Countdown` says so. The reading at the beginning
of a run counts in both directions (`begin`): a clock that has gone back gives all timers more time.
Before the first run the loop has no clock, and a delay counts from the moment of the call (`lag`).
`nanoev_timer_del` in the timer's own callback ends the repetition and leaves a countdown that the
callback has begun (`del`). A call for which there is no memory has stored its arguments already
(`add`).

What can be observed is each call with its arguments and return code, each reading of the clock,
each callback, and for how long the loop may sleep. The timers of a loop, with their heap of
expiries and with I/O events that arm and disarm timeouts in it, have no other histories than the
countdown (`refines_countdown`).
-/

namespace Nanoev

open Transition

/-- What can be observed of timers; times are in microseconds. -/
inductive TimerEvent
  | created (t : ℕ)
  | add (t : ℕ) (after : Timeval) (repeats : Bool) (callback : ℕ) (clock : ℤ) (ret : RetCode)
  | del (t : ℕ) (ret : RetCode)
  | free (t : ℕ)
  | timeoutAdd (e : ℕ) (write : Bool) (after : Timeval) (clock : ℤ) (ret : RetCode)
  | timeoutDel (e : ℕ) (write : Bool)
  /-- A run begins. -/
  | entered (clock : ℤ)
  | reading (clock : ℤ)
  /-- The callback of a node is called; a timer event has one of its own. -/
  | fired (n : NodeRef) (callback : Option ℕ)
  | returned
  /-- The loop may sleep for this time, or without end. -/
  | sleeps (time : Option ℤ)
  /-- A run ends. -/
  | left
deriving DecidableEq, Repr

/-- What a timer event was last armed with, and whether its client has freed it. -/
structure Setting where
  period : ℤ
  repeats : Bool
  callback : ℕ
  freed : Bool
deriving DecidableEq, Repr

@[ext] structure Countdown where
  /-- The time that is left to the timers that are armed. -/
  left : NodeRef → Option ℤ
  setting : ℕ → Option Setting
  control : Control
  /-- The last reading of the clock by the loop. -/
  clock : ℤ

namespace Countdown

def init : Countdown := ⟨fun _ ↦ none, fun _ ↦ none, .idle, 0⟩

def inUserCode (x : Countdown) : Bool :=
  match x.control with
  | .idle | .timerCallback _ | .tcpCallback | .polling => true
  | .updating | .processing | .waiting => false

/-- The setting of a timer event that the client may still use. -/
def live (x : Countdown) (t : ℕ) : Option Setting := (x.setting t).filter fun p ↦ !p.freed

def pass (x : Countdown) (time : ℤ) : Countdown :=
  { x with left := fun n ↦ (x.left n).map fun r ↦ r - time }

/-- What a delay is longer by when the loop has not read the clock yet. -/
def lag (x : Countdown) (clock : ℤ) : ℤ := if x.clock = 0 then clock else 0

def arm (x : Countdown) (n : NodeRef) (delay clock : ℤ) : Countdown :=
  { x with left := Function.update x.left n (some (delay + x.lag clock)) }

def disarm (x : Countdown) (n : NodeRef) : Countdown :=
  { x with left := Function.update x.left n none }

def set (x : Countdown) (t : ℕ) (p : Option Setting) : Countdown :=
  { x with setting := Function.update x.setting t p }

/-- A timer is armed; `room` is whether there is memory. -/
def start (x : Countdown) (n : NodeRef) (delay clock : ℤ) (room : Bool) : Countdown × RetCode :=
  if (x.left n).isSome then (x, .fail)
  else if room then (x.arm n delay clock, .success)
  else (x, .outOfMemory)

/-- `nanoev_timer_add`. -/
def add (x : Countdown) (t : ℕ) (after : Timeval) (repeats : Bool) (callback : ℕ) (clock : ℤ)
    (room : Bool) : Countdown × RetCode :=
  if (x.left (.timer t)).isSome then (x, .fail)
  else if invalidDelay after then (x, .invalidArg)
  else
    (x.set t (some ⟨after.micros, repeats, callback, false⟩)).start (.timer t) after.micros
      clock room

/-- `nanoev_timer_del`. -/
def del (x : Countdown) (t : ℕ) (p : Setting) : Countdown × RetCode :=
  if x.control = .timerCallback t then (x.set t (some { p with repeats := false }), .success)
  else if (x.left (.timer t)).isSome then (x.disarm (.timer t), .success)
  else (x, .fail)

/-- `nanoev_event_free`, which is deferred in the timer's own callback. -/
def free (x : Countdown) (t : ℕ) (p : Setting) : Countdown :=
  if x.control = .timerCallback t then
    (x.disarm (.timer t)).set t (some { p with repeats := false, freed := true })
  else (x.disarm (.timer t)).set t none

/-- The time of the timer is over, and no other one has less left. -/
def Due (x : Countdown) (n : NodeRef) : Prop :=
  ∃ r, x.left n = some r ∧ r ≤ 0 ∧ ∀ m q, x.left m = some q → r ≤ q

/-- The time until the next timer is due; there is none when no timer is armed. -/
def Next (x : Countdown) : Option ℤ → Prop
  | none => ∀ n, x.left n = none
  | some time => ∃ n r, x.left n = some r ∧ time = max 0 r ∧ ∀ m q, x.left m = some q → r ≤ q

def fire (x : Countdown) (n : NodeRef) : Countdown :=
  { x.disarm n with
    control :=
      match n with
      | .timer t => .timerCallback t
      | .tcp _ _ => .tcpCallback }

/-- The callback of a timer event has returned: a repeating timer that has not been armed by it is
armed again. -/
def leave (x : Countdown) (t : ℕ) (p : Setting) (clock : ℤ) : Countdown :=
  let y := { x with control := .processing }
  if p.freed then y.set t none
  else if p.repeats && (x.left (.timer t)).isNone then y.arm (.timer t) p.period clock
  else y

inductive Action
  | new (t : ℕ)
  | add (t : ℕ) (after : Timeval) (repeats : Bool) (callback : ℕ) (clock : ℤ) (room : Bool)
  | del (t : ℕ)
  | free (t : ℕ)
  | timeoutAdd (e : ℕ) (write : Bool) (after : Timeval) (clock : ℤ) (room : Bool)
  | timeoutDel (e : ℕ) (write : Bool)
  | begin (clock : ℤ)
  | tick (clock : ℤ)
  | fire (n : NodeRef)
  /-- No timer is due any more. -/
  | settle
  | ret (clock : ℤ)
  | sleep (time : Option ℤ)
  | again
  | finish

open Classical in
noncomputable def step (x : Countdown) : Action → Option Countdown
  | .new t =>
    if x.inUserCode ∧ x.setting t = none then some (x.set t (some ⟨0, false, 0, false⟩)) else none
  | .add t after repeats callback clock room =>
    if x.inUserCode then
      (x.live t).map fun _ ↦ (x.add t after repeats callback clock room).1
    else none
  | .del t => if x.inUserCode then (x.live t).map fun p ↦ (x.del t p).1 else none
  | .free t => if x.inUserCode then (x.live t).map fun p ↦ x.free t p else none
  | .timeoutAdd e write after clock room =>
    if x.inUserCode ∧ invalidDelay after = false then
      some (x.start (.tcp e write) after.micros clock room).1
    else none
  | .timeoutDel e write => if x.inUserCode then some (x.disarm (.tcp e write)) else none
  | .begin clock =>
    if x.control = .idle then
      some { x.pass (clock - x.clock) with clock, control := .updating }
    else none
  | .tick clock =>
    if x.control = .updating then
      some { x.pass (max 0 (clock - x.clock)) with clock, control := .processing }
    else none
  | .fire n => if x.control = .processing ∧ x.Due n then some (x.fire n) else none
  | .settle =>
    if x.control = .processing ∧ ∀ n r, x.left n = some r → 0 < r then
      some { x with control := .waiting }
    else none
  | .ret clock =>
    match x.control with
    | .timerCallback t => (x.setting t).map fun p ↦ x.leave t p clock
    | .tcpCallback => some { x with control := .processing }
    | _ => none
  | .sleep time =>
    if x.control = .waiting ∧ x.Next time then some { x with control := .polling } else none
  | .again => if x.control = .polling then some { x with control := .updating } else none
  | .finish => if x.control = .polling then some { x with control := .idle } else none

def callbackOf (x : Countdown) : NodeRef → Option ℕ
  | .timer t => (x.setting t).map Setting.callback
  | .tcp _ _ => none

def shows (x : Countdown) : Action → List TimerEvent
  | .new t => [.created t]
  | .add t after repeats callback clock room =>
    [.add t after repeats callback clock (x.add t after repeats callback clock room).2]
  | .del t => ((x.live t).map fun p ↦ .del t (x.del t p).2).toList
  | .free t => [.free t]
  | .timeoutAdd e write after clock room =>
    [.timeoutAdd e write after clock (x.start (.tcp e write) after.micros clock room).2]
  | .timeoutDel e write => [.timeoutDel e write]
  | .begin clock => [.entered clock]
  | .tick clock => [.reading clock]
  | .fire n => [.fired n (x.callbackOf n)]
  | .settle => []
  | .ret _ => [.returned]
  | .sleep time => [.sleeps time]
  | .again => []
  | .finish => [.left]

end Countdown

/-! ## The timers of the source -/

def Timer.setting (τ : Timer) : Setting := ⟨τ.after.micros, τ.repeats, τ.callback, τ.deleted⟩

namespace TimerLoop

open TimerMinHeap

/-- The time that a poller is given; `tv_sec = -1` stands for no limit. -/
def sleepTime (timeout : Timeval) : Option ℤ :=
  if timeout.sec = -1 then none else some timeout.micros

def callbackOf (s : TimerLoop) : NodeRef → Option ℕ
  | .timer t => (s.timer t).map Timer.callback
  | .tcp _ _ => none

def shows (s : TimerLoop) : Action → List TimerEvent
  | .timerNew t => [.created t]
  | .timerAdd t after repeats callback clock alloc =>
    ((s.liveTimer t).map fun τ ↦ .add t after repeats callback clock.1.micros
      (s.timerAdd t τ after repeats callback clock alloc).2).toList
  | .timerDel t => ((s.liveTimer t).map fun τ ↦ .del t (s.timerDel t τ).2).toList
  | .timerFree t => [.free t]
  | .tcpTimeoutAdd e write after clock alloc =>
    [.timeoutAdd e write after clock.1.micros (s.nodeAdd (.tcp e write) after clock alloc).2]
  | .tcpTimeoutDel e write => [.timeoutDel e write]
  | .runEnter clock => [.entered clock.1.micros]
  | .updateTime clock => [.reading clock.1.micros]
  | .processTurn => (s.due.map fun n ↦ .fired n (s.callbackOf n)).toList
  | .callbackReturn _ => [.returned]
  | .poll => [.sleeps (sleepTime (s.timers.timersTimeout s.now s.timeout))]
  | .nextIteration => []
  | .runExit => [.left]

def leftOf (s : TimerLoop) (n : NodeRef) : Option ℤ :=
  (s.timers.armed n).map fun tv ↦ tv.micros - s.now.micros

/-- The countdown that the heap of expiries and the cached clock stand for. -/
def countdown (s : TimerLoop) : Countdown where
  left := s.leftOf
  setting t := (s.timer t).map Timer.setting
  control := s.control
  clock := s.now.micros

variable {s s' : TimerLoop} {t : ℕ} {τ : Timer} {n : NodeRef} {after expires : Timeval}
  {clock : Timeval.Reading} {capacity : ℕ}

/-! ## What the updates of the source are for the countdown -/

theorem leftOf_eq_some_iff {r : ℤ} : s.leftOf n = some r ↔
    ∃ tv, s.timers.armed n = some tv ∧ tv.micros - s.now.micros = r := Option.map_eq_some_iff

theorem isSome_leftOf : (s.leftOf n).isSome = s.timers.timerNodeActive n := by
  rw [leftOf, Option.isSome_map, timerNodeActive_eq]

theorem leftOf_update {tv : Option Timeval}
    (harmed : s'.timers.armed = Function.update s.timers.armed n tv) (hnow : s'.now = s.now) :
    s'.leftOf = Function.update s.leftOf n (tv.map fun tv ↦ tv.micros - s.now.micros) := by
  funext m
  unfold leftOf
  rw [harmed, hnow]
  by_cases hm : m = n
  · subst hm
    rw [Function.update_self, Function.update_self]
  · rw [Function.update_of_ne hm, Function.update_of_ne hm]

theorem countdown_erase (hs : s.Inv) (n : NodeRef) :
    (s.erase n).countdown = s.countdown.disarm n :=
  Countdown.ext (leftOf_update (armed_erase hs n) rfl) rfl rfl rfl

theorem countdown_setTimer (s : TimerLoop) (t : ℕ) (o : Option Timer) :
    (s.setTimer t o).countdown = s.countdown.set t (o.map Timer.setting) := by
  refine Countdown.ext rfl ?_ rfl rfl
  funext u
  show (Function.update s.timer t o u).map Timer.setting =
    Function.update s.countdown.setting t (o.map Timer.setting) u
  by_cases hu : u = t
  · subst hu
    rw [Function.update_self, Function.update_self]
  · rw [Function.update_of_ne hu, Function.update_of_ne hu]
    rfl

theorem countdown_setTimer_of_eq (hτ : s.timer t = some τ) {τ' : Timer}
    (heq : τ'.setting = τ.setting) : (s.setTimer t (some τ')).countdown = s.countdown := by
  rw [countdown_setTimer, Option.map_some, heq]
  refine Countdown.ext rfl ?_ rfl rfl
  have hself : s.countdown.setting t = some τ.setting := congrArg (Option.map _) hτ
  show Function.update s.countdown.setting t (some τ.setting) = s.countdown.setting
  rw [← hself, Function.update_eq_self]

theorem countdown_writeTimeout (hn : n ∉ s.timers.activeNodes) :
    (s.writeTimeout n expires).countdown = s.countdown := by
  refine Countdown.ext ?_ rfl rfl rfl
  funext m
  exact congrArg (Option.map _) (congrFun (armed_setTimeout hn expires) m)

theorem micros_loopNow (hs : s.Inv) (clock : Timeval.Reading) :
    (s.loopNow clock).micros = s.now.micros + s.countdown.lag clock.1.micros := by
  obtain ⟨hsec, husec, hlt⟩ := hs.now
  have hzero : s.now.micros = 0 ↔ ¬(s.now.sec ≠ 0 ∨ s.now.usec ≠ 0) := by
    unfold Timeval.micros
    omega
  unfold loopNow Countdown.lag
  show _ = s.now.micros + if s.now.micros = 0 then _ else _
  by_cases hnow : s.now.sec ≠ 0 ∨ s.now.usec ≠ 0
  · rw [if_pos hnow, if_neg (fun h ↦ hzero.mp h hnow), add_zero]
  · rw [if_neg hnow, if_pos (hzero.mpr hnow), hzero.mpr hnow, zero_add]

theorem countdown_arm (hs : s.Inv) (hn : n ∉ s.timers.activeNodes) (after : Timeval)
    (clock : Timeval.Reading) (capacity : ℕ) :
    (s.arm n after (timeAdd (s.loopNow clock) after) capacity).countdown =
      s.countdown.arm n after.micros clock.1.micros := by
  refine Countdown.ext ((leftOf_update (armed_arm hs hn) rfl).trans ?_) rfl rfl rfl
  refine congrArg (Function.update s.leftOf n) ?_
  rw [Option.map_some, micros_timeAdd, micros_loopNow hs]
  congr 1
  ring

theorem countdown_inUserCode (s : TimerLoop) : s.countdown.inUserCode = s.inUserCode := rfl

theorem countdown_live (s : TimerLoop) (t : ℕ) :
    s.countdown.live t = (s.liveTimer t).map Timer.setting := by
  unfold Countdown.live liveTimer
  show ((s.timer t).map Timer.setting).filter _ = _
  cases s.timer t with
  | none => rfl
  | some τ =>
    rw [Option.map_some, Option.filter_some, Option.filter_some]
    cases h : τ.deleted <;> simp [Timer.setting, h]

theorem countdown_timerNew (hs : s.Inv) (hnone : s.timer t = none) :
    (s.timerNew t).countdown = s.countdown.set t (some ⟨0, false, 0, false⟩) := by
  have harmed : (s.timers.timerNodeInit (.timer t)).armed = s.timers.armed :=
    armed_timerNodeInit hs.heap (hs.not_mem_of_none hnone)
  have hset := congrArg Countdown.setting
    (countdown_setTimer s t (some ⟨false, false, ⟨0, 0⟩, false, 0⟩))
  refine Countdown.ext ?_ hset rfl rfl
  funext n
  exact congrArg (Option.map _) (congrFun harmed n)

/-! ## The calls -/

theorem countdown_nodeAdd (hs : s.Inv) (hafter : after.Normalized) (n : NodeRef)
    (clock : Timeval.Reading) (alloc : Bool) :
    ∃ room, s.countdown.start n after.micros clock.1.micros room =
      ((s.nodeAdd n after clock alloc).1.countdown, (s.nodeAdd n after clock alloc).2) := by
  have hactive : (s.countdown.left n).isSome = s.timers.timerNodeActive n := isSome_leftOf
  unfold Countdown.start nodeAdd
  rw [hactive]
  rcases nodeAddBy_cases timeAdd s n after clock alloc with
    ⟨hn, heq⟩ | ⟨hn, -, -, heq⟩ | ⟨hn, capacity, -, heq⟩
  · exact ⟨true, by rw [heq, if_pos (mem_activeNodes.mp hn)]; rfl⟩
  · refine ⟨false, ?_⟩
    rw [heq, if_neg (fun h ↦ hn (mem_activeNodes.mpr h)), if_neg Bool.false_ne_true,
      hs.expiryAsserted_eq hafter, countdown_writeTimeout hn]
  · refine ⟨true, ?_⟩
    rw [heq, if_neg (fun h ↦ hn (mem_activeNodes.mpr h)), if_pos rfl,
      hs.expiryAsserted_eq hafter, countdown_arm hs hn]

theorem countdown_timerAdd (hs : s.Inv) (hτ : s.timer t = some τ) (hdel : τ.deleted = false)
    (after : Timeval) (repeats : Bool) (callback : ℕ) (clock : Timeval.Reading) (alloc : Bool) :
    ∃ room, s.countdown.add t after repeats callback clock.1.micros room =
      ((s.timerAdd t τ after repeats callback clock alloc).1.countdown,
        (s.timerAdd t τ after repeats callback clock alloc).2) := by
  have hactive : (s.countdown.left (.timer t)).isSome = s.timers.timerNodeActive (.timer t) :=
    isSome_leftOf
  unfold Countdown.add timerAdd timerAddBy
  rw [hactive]
  split_ifs with hact hinvalid
  · exact ⟨true, rfl⟩
  · exact ⟨true, rfl⟩
  · have hafter : after.Normalized :=
      invalidDelay_eq_false_iff.mp (Bool.eq_false_iff.mpr hinvalid)
    have hinv : (s.setTimer t (some { τ with after, repeats, callback })).Inv :=
      hs.setTimer hτ _ hafter rfl (Or.inl rfl)
    have hset : (s.setTimer t (some { τ with after, repeats, callback })).countdown =
        s.countdown.set t (some ⟨after.micros, repeats, callback, false⟩) := by
      rw [countdown_setTimer, ← hdel]
      rfl
    obtain ⟨room, hroom⟩ := countdown_nodeAdd hinv hafter (.timer t) clock alloc
    refine ⟨room, ?_⟩
    rw [← hset, hroom]
    unfold nodeAdd
    dsimp only
    generalize (s.setTimer t (some { τ with after, repeats, callback })).nodeAddBy timeAdd
      (.timer t) after clock alloc = r
    obtain ⟨s₂, code⟩ := r
    cases code <;> rfl

/-- The flag `NANOEV_TIMER_FLAG_INVOKING_CALLBACK` says whose callback runs. -/
theorem invokingCallback_iff (hs : s.Inv) (hτ : s.timer t = some τ) :
    τ.invokingCallback = true ↔ s.countdown.control = .timerCallback t := by
  refine Iff.trans ?_ (hs.invoking t).symm
  refine ⟨fun h ↦ ⟨τ, hτ, h⟩, fun ⟨τ', hτ', h⟩ ↦ ?_⟩
  obtain rfl := Option.some.inj (hτ.symm.trans hτ')
  exact h

theorem countdown_timerDel (hs : s.Inv) (hτ : s.timer t = some τ) :
    s.countdown.del t τ.setting = ((s.timerDel t τ).1.countdown, (s.timerDel t τ).2) := by
  have hactive : (s.countdown.left (.timer t)).isSome = s.timers.timerNodeActive (.timer t) :=
    isSome_leftOf
  unfold Countdown.del timerDel
  rw [hactive]
  by_cases hinv : τ.invokingCallback = true
  · rw [if_pos hinv, if_pos ((invokingCallback_iff hs hτ).mp hinv)]
    have hset := countdown_setTimer s t (some { τ with repeats := false })
    exact Prod.ext hset.symm rfl
  · rw [if_neg hinv, if_neg (fun h ↦ hinv ((invokingCallback_iff hs hτ).mpr h))]
    split_ifs
    · exact Prod.ext (countdown_erase hs _).symm rfl
    · rfl

theorem countdown_timerFree (hs : s.Inv) (hτ : s.timer t = some τ) :
    s.countdown.free t τ.setting = (s.timerFree t τ).countdown := by
  unfold Countdown.free timerFree
  by_cases hinv : τ.invokingCallback = true
  · rw [if_pos hinv, if_pos ((invokingCallback_iff hs hτ).mp hinv), countdown_setTimer,
      countdown_erase hs]
    rfl
  · rw [if_neg hinv, if_neg (fun h ↦ hinv ((invokingCallback_iff hs hτ).mpr h)),
      countdown_setTimer, countdown_erase hs]
    rfl

/-! ## The clock -/

/-- Entry of `nanoev_loop_run`: the cached clock is replaced, and the expiries stay. -/
theorem countdown_runEnter (clock : Timeval.Reading) :
    TimerLoop.countdown
        { s with now := clock.1, control := .updating, elapsed := 0, arming := fun _ ↦ none } =
      { s.countdown.pass (clock.1.micros - s.countdown.clock) with
        clock := clock.1.micros, control := .updating } := by
  refine Countdown.ext ?_ rfl rfl rfl
  funext n
  show (s.timers.armed n).map _ = ((s.timers.armed n).map _).map _
  rw [Option.map_map]
  congr 1
  funext tv
  show tv.micros - clock.1.micros = tv.micros - s.now.micros - (clock.1.micros - s.now.micros)
  ring

/-- `__update_time`: the expiries follow a clock that goes back. -/
theorem countdown_updateTime (hs : s.Inv) (clock : Timeval.Reading) :
    TimerLoop.countdown { s.updateTime clock with control := .processing } =
      { s.countdown.pass (max 0 (clock.1.micros - s.countdown.clock)) with
        clock := clock.1.micros, control := .processing } := by
  refine Countdown.ext ?_ ?_ rfl rfl
  · funext n
    show ((s.updateTime clock).timers.armed n).map _ = ((s.timers.armed n).map _).map _
    rw [armed_updateTime hs, Option.map_map, Option.map_map]
    congr 1
    funext tv
    show (shifted s.now clock.1 tv).micros - clock.1.micros =
      tv.micros - s.now.micros - max 0 (clock.1.micros - s.now.micros)
    rw [micros_shifted hs.now.proper clock.2.proper]
    omega
  · funext t
    exact congrArg (Option.map _) (congrFun (updateTime_frame s clock).2.1 t)

/-! ## The turns of `timers_process` -/

theorem key_le_now_iff (hs : s.Inv) {tv : Timeval} (harmed : s.timers.armed n = some tv) :
    tv.key ≤ s.now.key ↔ tv.micros - s.now.micros ≤ 0 := by
  rw [Timeval.key_le_iff_micros (hs.proper n tv harmed) hs.now.proper]
  omega

theorem leftOf_root_le (hs : s.Inv) {q : ℤ} (hq : s.leftOf n = some q) :
    (s.timers.node (s.timers.events 0)).timeout.micros - s.now.micros ≤ q := by
  obtain ⟨tv, harmed, rfl⟩ := leftOf_eq_some_iff.mp hq
  have hsize : s.timers.size ≠ 0 := by
    intro hsize
    rw [armed_of_size_eq_zero hs.heap hsize] at harmed
    cases harmed
  have hroot := hs.proper _ _ (armed_root hs.heap hsize)
  have hle := root_le_armed hs.heap harmed
  rw [Timeval.key_le_iff_micros hroot (hs.proper n tv harmed)] at hle
  omega

theorem leftOf_root (hs : s.Inv) (hsize : s.timers.size ≠ 0) : s.leftOf (s.timers.events 0) =
    some ((s.timers.node (s.timers.events 0)).timeout.micros - s.now.micros) := by
  rw [leftOf, armed_root hs.heap hsize]
  rfl

theorem left_pos_of_due_eq_none (hs : s.Inv) (hdue : s.due = none) {r : ℤ}
    (hr : s.leftOf n = some r) : 0 < r := by
  have hle := leftOf_root_le hs hr
  unfold due at hdue
  split_ifs at hdue with hsize hcmp
  · obtain ⟨tv, harmed, -⟩ := leftOf_eq_some_iff.mp hr
    rw [armed_of_size_eq_zero hs.heap hsize] at harmed
    cases harmed
  · rw [timeCmp_pos_iff, ← not_le, key_le_now_iff hs (armed_root hs.heap hsize)] at hcmp
    omega

theorem due_spec (hs : s.Inv) (hdue : s.due = some n) : s.countdown.Due n := by
  unfold due at hdue
  split_ifs at hdue with hsize hcmp
  obtain rfl := Option.some.inj hdue
  refine ⟨_, leftOf_root hs hsize, ?_, fun m q hq ↦ leftOf_root_le hs hq⟩
  rw [← key_le_now_iff hs (armed_root hs.heap hsize), ← timeCmp_nonpos_iff]
  exact not_lt.mp hcmp

theorem countdown_fire (hs : s.Inv) (hdue : s.due = some n) :
    s.processTurn.countdown = s.countdown.fire n := by
  have herase := countdown_erase hs n
  cases n with
  | timer t =>
    -- the event is there, since its node is armed
    obtain ⟨r, hr, -⟩ := due_spec hs hdue
    obtain ⟨tv, harmed, -⟩ := leftOf_eq_some_iff.mp hr
    obtain ⟨τ, hτ, -⟩ := hs.live t tv harmed
    rw [processTurn_of_due_timer hdue, invokeTimer, fire_timer, hτ]
    dsimp only
    have hτ' : (s.fire (.timer t)).timer t = some τ := hτ
    have hset : ((s.fire (.timer t)).setTimer t
        (some { τ with invokingCallback := true })).countdown = (s.fire (.timer t)).countdown :=
      countdown_setTimer_of_eq hτ' rfl
    exact congrArg (fun x : Countdown ↦ { x with control := .timerCallback t }) (hset.trans herase)
  | tcp e write =>
    rw [processTurn_of_due_tcp hdue]
    exact congrArg (fun x : Countdown ↦ { x with control := .tcpCallback }) herase

theorem countdown_timerReturn (hs : s.Inv) (hc : s.control = .timerCallback t)
    (hτ : s.timer t = some τ) (clock : Timeval.Reading) :
    (s.timerReturn t τ clock).countdown = s.countdown.leave t τ.setting clock.1.micros := by
  have hset : (s.setTimer t (some { τ with invokingCallback := false })).countdown = s.countdown :=
    countdown_setTimer_of_eq hτ rfl
  have hleft : TimerLoop.countdown
      { s.setTimer t (some { τ with invokingCallback := false }) with control := .processing } =
      { s.countdown with control := .processing } :=
    congrArg (fun x : Countdown ↦ { x with control := .processing }) hset
  have hreinserts : s.reinserts t τ = (!τ.deleted && (τ.setting.repeats &&
      (s.countdown.left (.timer t)).isNone)) := by
    rw [reinserts, Bool.and_assoc, ← isSome_leftOf, Option.not_isSome]
    rfl
  unfold Countdown.leave timerReturn
  dsimp only
  rcases timerReturnBy_cases timeAdd s t τ clock with
    ⟨hdel, heq⟩ | ⟨hdel, hre, heq⟩ | ⟨hdel, hrep, hn, hre, heq⟩
  · rw [heq, countdown_setTimer, hleft, if_pos (show τ.setting.freed = true from hdel)]
    rfl
  · rw [hreinserts, hdel, Bool.not_false, Bool.true_and] at hre
    rw [heq, hleft, if_neg (show ¬τ.setting.freed = true by simp [Timer.setting, hdel]),
      if_neg (by rw [hre]; exact Bool.false_ne_true)]
  · rw [hreinserts, hdel, Bool.not_false, Bool.true_and] at hre
    have hinv := hs.leaveCallback hc hτ
    rw [heq, hinv.expiryAsserted_eq (hs.after t τ hτ),
      if_neg (show ¬τ.setting.freed = true by simp [Timer.setting, hdel]), if_pos hre]
    exact (countdown_arm hinv hn τ.after clock _).trans
      (congrArg (fun x : Countdown ↦ x.arm (.timer t) τ.after.micros clock.1.micros) hleft)

theorem next_timersTimeout (hs : s.Inv) (timeout : Timeval) :
    s.countdown.Next (sleepTime (s.timers.timersTimeout s.now timeout)) := by
  unfold timersTimeout
  split_ifs with hsize
  · intro n
    show s.leftOf n = none
    rw [leftOf, armed_of_size_eq_zero hs.heap hsize]
    rfl
  · have hproper := hs.proper _ _ (armed_root hs.heap hsize)
    dsimp only
    split_ifs with hcmp
    · rw [timeCmp_nonpos_iff, key_le_now_iff hs (armed_root hs.heap hsize)] at hcmp
      exact ⟨_, _, leftOf_root hs hsize, (max_eq_left hcmp).symm, fun m q hq ↦ leftOf_root_le hs hq⟩
    · rw [timeCmp_nonpos_iff, key_le_now_iff hs (armed_root hs.heap hsize), not_le] at hcmp
      -- the difference is proper and positive, so it is not the mark for no limit
      have hsub := hproper.timeSub hs.now.proper
      have hsec : (timeSub (s.timers.node (s.timers.events 0)).timeout s.now).sec ≠ -1 := by
        intro hsec
        have hmicros := micros_timeSub (s.timers.node (s.timers.events 0)).timeout s.now
        obtain ⟨hnonneg, hlt⟩ := hsub
        unfold Timeval.micros at hmicros hcmp
        omega
      rw [sleepTime, if_neg hsec, micros_timeSub]
      exact ⟨_, _, leftOf_root hs hsize, (max_eq_right hcmp.le).symm,
        fun m q hq ↦ leftOf_root_le hs hq⟩

/-! ## The simulation -/

theorem countdown_callbackOf (s : TimerLoop) (n : NodeRef) :
    s.countdown.callbackOf n = s.callbackOf n := by
  cases n with
  | timer t =>
    show ((s.timer t).map Timer.setting).map Setting.callback = (s.timer t).map Timer.callback
    rw [Option.map_map]
    rfl
  | tcp e write => rfl

/-- **One step** of the source is one step of the countdown that shows the same. -/
theorem simulates_step (hs : s.Inv) {a : Action} (h : step s a = some s') :
    ∃ b, s.countdown.step b = some s'.countdown ∧ s.countdown.shows b = s.shows a := by
  cases a with
  | timerNew t =>
    simp only [step, stepBy, Option.ite_none_right_eq_some, Option.some.injEq] at h
    obtain ⟨⟨huser, hnone⟩, rfl⟩ := h
    refine ⟨.new t, ?_, rfl⟩
    rw [countdown_timerNew hs hnone]
    exact if_pos ⟨huser, congrArg (Option.map _) hnone⟩
  | timerAdd t after repeats callback clock alloc =>
    simp only [step, stepBy, Option.ite_none_right_eq_some, Option.map_eq_some_iff] at h
    obtain ⟨huser, τ, hlive, rfl⟩ := h
    obtain ⟨hτ, hdel⟩ := liveTimer_eq_some_iff.mp hlive
    obtain ⟨room, hadd⟩ := countdown_timerAdd hs hτ hdel after repeats callback clock alloc
    refine ⟨.add t after repeats callback clock.1.micros room, ?_, ?_⟩
    · rw [Countdown.step, countdown_inUserCode, if_pos huser, countdown_live, hlive,
        Option.map_some, Option.map_some, hadd]
      rfl
    · rw [Countdown.shows, shows, hlive, hadd]
      rfl
  | timerDel t =>
    simp only [step, stepBy, Option.ite_none_right_eq_some, Option.map_eq_some_iff] at h
    obtain ⟨huser, τ, hlive, rfl⟩ := h
    have hdel := countdown_timerDel hs (liveTimer_eq_some_iff.mp hlive).1
    refine ⟨.del t, ?_, ?_⟩
    · rw [Countdown.step, countdown_inUserCode, if_pos huser, countdown_live, hlive,
        Option.map_some, Option.map_some, hdel]
    · rw [Countdown.shows, shows, countdown_live, hlive, Option.map_some, Option.map_some, hdel]
      rfl
  | timerFree t =>
    simp only [step, stepBy, Option.ite_none_right_eq_some, Option.map_eq_some_iff] at h
    obtain ⟨huser, τ, hlive, rfl⟩ := h
    refine ⟨.free t, ?_, rfl⟩
    rw [Countdown.step, countdown_inUserCode, if_pos huser, countdown_live, hlive,
      Option.map_some, Option.map_some, countdown_timerFree hs (liveTimer_eq_some_iff.mp hlive).1]
  | tcpTimeoutAdd e write after clock alloc =>
    simp only [step, stepBy, Option.ite_none_right_eq_some, Option.some.injEq] at h
    obtain ⟨hguard, rfl⟩ := h
    obtain ⟨room, hadd⟩ := countdown_nodeAdd hs (invalidDelay_eq_false_iff.mp hguard.2)
      (.tcp e write) clock alloc
    refine ⟨.timeoutAdd e write after clock.1.micros room, ?_, ?_⟩
    · rw [Countdown.step, countdown_inUserCode, if_pos hguard, hadd]
      rfl
    · rw [Countdown.shows, shows, hadd]
  | tcpTimeoutDel e write =>
    simp only [step, stepBy, Option.ite_none_right_eq_some, Option.some.injEq] at h
    obtain ⟨huser, rfl⟩ := h
    refine ⟨.timeoutDel e write, ?_, rfl⟩
    rw [countdown_erase hs]
    exact if_pos huser
  | runEnter clock =>
    simp only [step, stepBy, Option.ite_none_right_eq_some, Option.some.injEq] at h
    obtain ⟨hc, rfl⟩ := h
    refine ⟨.begin clock.1.micros, ?_, rfl⟩
    rw [countdown_runEnter]
    exact if_pos hc
  | updateTime clock =>
    simp only [step, stepBy, Option.ite_none_right_eq_some, Option.some.injEq] at h
    obtain ⟨hc, rfl⟩ := h
    refine ⟨.tick clock.1.micros, ?_, rfl⟩
    rw [countdown_updateTime hs]
    exact if_pos hc
  | processTurn =>
    simp only [step, stepBy, Option.ite_none_right_eq_some, Option.some.injEq] at h
    obtain ⟨hc, rfl⟩ := h
    cases hdue : s.due with
    | none =>
      refine ⟨.settle, ?_, by rw [shows, hdue]; rfl⟩
      rw [processTurn_of_due_none hdue]
      exact if_pos ⟨hc, fun n r hr ↦ left_pos_of_due_eq_none hs hdue hr⟩
    | some n =>
      refine ⟨.fire n, ?_, by rw [Countdown.shows, shows, hdue, countdown_callbackOf]; rfl⟩
      rw [countdown_fire hs hdue]
      exact if_pos ⟨hc, due_spec hs hdue⟩
  | callbackReturn clock =>
    refine ⟨.ret clock.1.micros, ?_, rfl⟩
    simp only [step, stepBy] at h
    split at h
    · next t hc =>
      obtain ⟨τ, hτ, rfl⟩ := Option.map_eq_some_iff.mp h
      have hcontrol : s.countdown.control = .timerCallback t := hc
      have hsetting : s.countdown.setting t = some τ.setting := congrArg (Option.map _) hτ
      rw [Countdown.step, hcontrol]
      dsimp only
      rw [hsetting, Option.map_some]
      exact congrArg some (countdown_timerReturn hs hc hτ clock).symm
    · next hc =>
      obtain rfl := Option.some.inj h
      have hcontrol : s.countdown.control = .tcpCallback := hc
      rw [Countdown.step, hcontrol]
      rfl
    · cases h
  | poll =>
    simp only [step, stepBy, Option.ite_none_right_eq_some, Option.some.injEq] at h
    obtain ⟨hc, rfl⟩ := h
    exact ⟨.sleep _, if_pos ⟨hc, next_timersTimeout hs s.timeout⟩, rfl⟩
  | nextIteration =>
    simp only [step, stepBy, Option.ite_none_right_eq_some, Option.some.injEq] at h
    obtain ⟨hc, rfl⟩ := h
    exact ⟨.again, if_pos hc, rfl⟩
  | runExit =>
    simp only [step, stepBy, Option.ite_none_right_eq_some, Option.some.injEq] at h
    obtain ⟨hc, rfl⟩ := h
    exact ⟨.finish, if_pos hc, rfl⟩

theorem simulation : Simulation step shows anyStep Countdown.step Countdown.shows anyStep
    fun s x ↦ s.Inv ∧ s.countdown = x where
  step := by
    rintro s a s' _ - hstep ⟨hs, rfl⟩
    obtain ⟨b, hb, hshows⟩ := simulates_step hs hstep
    exact ⟨_, .single trivial hb hshows, (step_effect hs hstep).inv hs, rfl⟩

end TimerLoop

/-! ## The timers of a loop with I/O events -/

namespace EventLoop

/-- What an action of the loop shows of the timers: what an action of the I/O events does to the
nodes of its TCP event shows too. -/
def timerShows (s : EventLoop) : Action → List TimerEvent
  | .timer a => s.timers.shows a
  | .io a clock alloc =>
    ((s.io.step (withRoom (s.timers.room alloc) a)).bind fun io' ↦
      s.timerPart io' clock alloc a).elim [] (emitted TimerLoop.step TimerLoop.shows s.timers)

theorem timer_simulation : Simulation step timerShows anyStep Countdown.step Countdown.shows anyStep
    fun s x ↦ s.timers.Inv ∧ s.timers.countdown = x where
  step := by
    intro s a s' x _ hstep hs
    cases a with
    | timer a =>
      obtain ⟨-, hstep⟩ := Option.ite_none_right_eq_some.mp hstep
      obtain ⟨timers', htimer, rfl⟩ := Option.map_eq_some_iff.mp hstep
      have htimers : (s.afterTimer timers' a).timers = timers' := by cases a <;> rfl
      rw [htimers]
      exact TimerLoop.simulation.step trivial htimer hs
    | io a clock alloc =>
      obtain ⟨io', hio, hstep⟩ := Option.bind_eq_some_iff.mp hstep
      obtain ⟨script, hscript, hstep⟩ := Option.bind_eq_some_iff.mp hstep
      obtain ⟨timers', hexec, rfl⟩ := Option.map_eq_some_iff.mp hstep
      rw [timerShows, hio, Option.bind_some, hscript]
      -- one action of the I/O events may be several of the timers
      exact TimerLoop.simulation.emits (.of_run (Run.of_exec hexec)) hs

/-- **The timers of the source refine the countdown**: in every run of a loop with timer events and
I/O events, with any clock and any memory, the calls, their return codes, the callbacks and the
times for which the loop may sleep are ones that timers that count down have. The loop is never
stuck between its parts. -/
theorem refines_countdown :
    Refines step timerShows anyStep init Countdown.step Countdown.shows anyStep Countdown.init ∧
      ∀ s, Reachable step anyStep init s → s.Joined :=
  ⟨timer_simulation.refines ⟨TimerLoop.init_inv, rfl⟩, fun _ ↦ joined_of_reachable⟩

end EventLoop

end Nanoev
