import Nanoev.Io.LoopInvariant
import Nanoev.Io.Submit
import Nanoev.Poller.Dispatch
import Nanoev.Poller.Queue

/-!
# The loop with the code of the poller

`Io.Loop` takes `epoll_poller_poll` apart: `epoll_wait` reports one event after the other, and each
report leads to the offers that follow from it. Its queue is a list. `PollLoop` is the loop with the
poller of the source in it: the queue is the window in the array of the poller, a completion that is
submitted goes through `epoll_poller_submit`, and a poll is one call of `epoll_poller_poll` on all
that `epoll_wait` returns at once.

A thread may call `nanoev_async_send` while the loop polls. What it does comes before one of the
calls of `reactor_cb`, or after the poll; `Callback` therefore has, with the results of the system
calls of one `reactor_cb`, the notifications that are sent before it.

Every state that this loop reaches is, with the contents of the window for the queue, a state that
`Io.Loop` reaches by its small steps: what holds of all of those holds of the code with its poller.
-/

namespace Nanoev

open Transition

namespace IoLoop

/-! ## The parts that a poll works on -/

def seen (s : IoLoop) (queue batch : List (ℕ × Dir)) (phase : Phase) : IoLoop :=
  { s with queue, batch, phase }

/-- `nanoev_async_send` by another thread; nothing happens if the event is not there. -/
def send (s : IoLoop) (e : ℕ × Bool) : IoLoop := (s.step (.asyncSend e.1 e.2)).getD s

/-- `reactor_cb` of an event: the loop, and whether the context is completed. -/
def reactorCb (s : IoLoop) (i : ℕ) (d : Dir) (sys : Sys) : IoLoop × Bool :=
  match s.mem i with
  | some (.tcp t) =>
    let (t', completed, effects) := t.reactorCb d sys s.fresh
    ((s.perform .tcp i effects).put i (.tcp t'), completed)
  | some (.udp u) =>
    let (u', completed) := u.reactorCb d sys
    ({ s.put i (.udp u') with
        received :=
          match d, sys.io with
          | .read, .done _ => s.received ++ [⟨i, u.bufRead, s.udpPending i⟩]
          | _, _ => s.received },
      completed)
  | some (.async a) => (s.put i (.async (a.reactorCb sys)), true)
  | none => (s, false)

/-- The kernel may return the results for `reactor_cb` of an event, which is there. -/
def reactorKernel (s : IoLoop) (i : ℕ) (d : Dir) (sys : Sys) : Bool :=
  match s.mem i with
  | some (.tcp t) => t.reactorKernel d sys
  | some (.udp u) => u.reactorKernel d sys
  | some (.async a) => a.reactorKernel sys && decide (d = .read)
  | none => false

variable {s : IoLoop} {i j : ℕ} {d : Dir} {sys : Sys} {queue batch : List (ℕ × Dir)} {phase : Phase}
  {reported : List ℕ} {offers : List (ℕ × Dir)}

theorem send_seen (e : ℕ × Bool) :
    (s.seen queue batch phase).send e = (s.send e).seen queue batch phase := by
  have hlive : (s.seen queue batch phase).live e.1 = s.live e.1 := rfl
  simp only [send, step, hlive]
  split
  · split <;> rfl
  · rfl

/-- What a notification changes: an async event may have a byte more in its pipe. -/
theorem send_mem (e : ℕ × Bool) : (s.send e).mem = s.mem ∨ ∃ a, s.mem e.1 = some (.async a) ∧
    (s.send e).mem = Function.update s.mem e.1 (some (.async (a.nanoevAsyncSend e.2).1)) := by
  simp only [send, step]
  split
  · next a ha =>
    split
    · exact .inr ⟨a, (live_eq_some_iff.mp ha).1, rfl⟩
    · exact .inl rfl
  · exact .inl rfl

theorem reactorCb_mem {o : Obj} (ho : s.mem i = some o) : (s.reactorCb i d sys).1.mem =
    Function.update s.mem i (some (o.reactorCb d sys s.fresh).1) := by
  simp only [reactorCb, ho]
  cases o <;> rfl

theorem reactorCb_none (hnone : s.mem i = none) : s.reactorCb i d sys = (s, false) := by
  simp only [reactorCb, hnone]

theorem appendReactorEvent_eq (hk : s.reactorKernel i d sys = true) :
    s.appendReactorEvent i d sys = some { (s.reactorCb i d sys).1 with
      batch := s.batch ++ completion i d (s.reactorCb i d sys).2 } := by
  cases ho : s.mem i with
  | none =>
    simp only [reactorKernel, ho] at hk
    cases hk
  | some o =>
    cases o with
    | tcp t | udp u =>
      simp only [reactorKernel, ho] at hk
      simp only [appendReactorEvent, reactorCb, ho]
      exact if_pos hk
    | async a =>
      simp only [reactorKernel, ho, Bool.and_eq_true, decide_eq_true_eq] at hk
      simp only [appendReactorEvent, reactorCb, ho]
      exact if_pos hk

/-- `reactor_cb` submits nothing, and does not look at the batch and at the phase. -/
theorem reactorCb_seen (hk : s.reactorKernel i d sys = true) :
    (s.seen queue batch phase).reactorCb i d sys =
      ((s.reactorCb i d sys).1.seen queue batch phase, (s.reactorCb i d sys).2) := by
  have hmem : (s.seen queue batch phase).mem i = s.mem i := rfl
  unfold reactorKernel at hk
  simp only [reactorCb, hmem]
  split
  · next t ht =>
    simp only [ht] at hk
    have hout : Tcp.OfferOutcome t d sys s.fresh _ _ _ := Tcp.offer_outcome hk
    have hqueue : queue ++ ((t.reactorCb d sys s.fresh).2.2.filterMap IoEffect.submitted?).map
        (fun d ↦ (i, d)) = queue := by
      rw [hout.submits_nil, List.map_nil, List.append_nil]
    refine Prod.ext ?_ rfl
    exact congrArg (fun q ↦ seen ((s.perform .tcp i (t.reactorCb d sys s.fresh).2.2).put i
      (.tcp (t.reactorCb d sys s.fresh).1)) q batch phase) hqueue
  · rfl
  · rfl
  · rfl

/-- **An offer is a call of `reactor_cb`.** -/
theorem step_offer (hk : s.reactorKernel i d sys = true) (hroom : batch.length < maxEvents) :
    (s.seen [] batch (.polling reported ((i, d) :: offers))).step (.offer sys) =
      some ((s.reactorCb i d sys).1.seen [] (batch ++ completion i d (s.reactorCb i d sys).2)
        (.polling reported offers)) := by
  have happend := appendReactorEvent_eq
    (s := s.seen [] batch (.polling reported ((i, d) :: offers))) hk
  rw [reactorCb_seen hk] at happend
  refine (if_pos hroom).trans ?_
  rw [happend]
  rfl

theorem step_epollWait : (s.seen [] batch .waiting).step .epollWait =
    some (s.seen [] batch (.polling [] [])) := by
  rw [step, if_pos ⟨rfl, rfl⟩]
  rfl

theorem step_pollReturn : (s.seen queue batch (.polling reported [])).step .pollReturn =
    some (s.seen queue batch .dispatching) := rfl

theorem step_epollFails : (s.seen [] batch .waiting).step .epollFails =
    some (s.seen [] batch .idle) := by
  rw [step, if_pos ⟨rfl, rfl⟩]
  rfl

theorem step_takeQueued (hne : queue ≠ []) : (s.seen queue batch .waiting).step .takeQueued =
    some (s.seen (queue.drop maxEvents) (queue.take maxEvents) .dispatching) := by
  rw [step, if_pos ⟨rfl, hne⟩]
  rfl

/-! ## What `epoll_wait` has reported -/

/-- The kernel may report the entry: the event is there, and interested. -/
def awaited (s : IoLoop) (e : EpollEvent ℕ) : Bool :=
  match e.data with
  | .notifyfd => true
  | .proactor i =>
    (s.mem i).any fun o ↦ e.events.report.all fun r ↦ r.possible o.interest && r.allowed o

theorem awaited_proactor {b : EpollBits} : s.awaited ⟨.proactor i, b⟩ = true ↔
    ∃ o, s.mem i = some o ∧
      ∀ r, b.report = some r → r.possible o.interest = true ∧ r.allowed o = true := by
  simp [awaited, Option.any_eq_true, Option.all_eq_true]

theorem awaited_congr {s' : IoLoop} {e : EpollEvent ℕ}
    (hmem : ∀ i, e.data = .proactor i → s'.mem i = s.mem i) : s'.awaited e = s.awaited e := by
  obtain ⟨data, b⟩ := e
  cases data with
  | notifyfd => rfl
  | proactor i => simp only [awaited, hmem i rfl]

/-- A notification does not take back a report: the pipe keeps its byte. -/
theorem awaited_send {e : EpollEvent ℕ} (h : s.awaited e = true) (n : ℕ × Bool) :
    (s.send n).awaited e = true := by
  obtain ⟨data, b⟩ := e
  cases data with
  | notifyfd => rfl
  | proactor i =>
    obtain ⟨o, ho, hr⟩ := awaited_proactor.mp h
    rcases send_mem (s := s) n with hmem | ⟨a, ha, hmem⟩
    · exact (awaited_congr fun j _ ↦ congrFun hmem j).trans h
    · by_cases hi : i = n.1
      · subst hi
        obtain rfl := Option.some.inj (ho.symm.trans ha)
        refine awaited_proactor.mpr ⟨_, by rw [hmem, Function.update_self], fun r hb ↦ ?_⟩
        obtain ⟨hpossible, hallowed⟩ := hr r hb
        unfold Async.nanoevAsyncSend
        split_ifs
        · exact ⟨hpossible, hallowed⟩
        · exact ⟨hpossible, hallowed⟩
        · exact ⟨hpossible, hallowed⟩
        · refine ⟨hpossible, ?_⟩
          simp only [Report.allowed, Bool.and_eq_true, decide_eq_true_eq] at hallowed ⊢
          exact ⟨hallowed.1, Nat.succ_pos _⟩
      · refine (awaited_congr fun j hj ↦ ?_).trans h
        obtain rfl := EpollData.proactor.inj hj
        rw [hmem, Function.update_of_ne hi]

theorem awaited_sends {e : EpollEvent ℕ} (l : List (ℕ × Bool)) : ∀ {s : IoLoop},
    s.awaited e = true → (l.foldl send s).awaited e = true := by
  induction l with
  | nil => exact fun h ↦ h
  | cons n l ih => exact fun h ↦ ih (awaited_send h n)

end IoLoop

/-! ## The proactors of a loop -/

/-- What happens at a call of `reactor_cb`: the notifications that other threads send before it, and
the results of its system calls. -/
structure Callback where
  sends : List (ℕ × Bool)
  sys : Sys
deriving DecidableEq, Repr

/-- The loop in a poll, with what happens at the calls of `reactor_cb` to come. -/
structure PollState where
  loop : IoLoop
  callbacks : List Callback
  /-- The kernel may have returned the results so far. -/
  kernel : Bool

/-- `reactor_cb` of the events of a loop. -/
def PollState.reactorCb (x : PollState) (i : ℕ) (d : Dir) : PollState × Option Dir :=
  match x.callbacks with
  | [] => ({ x with kernel := false }, none)
  | c :: callbacks =>
    let s := c.sends.foldl IoLoop.send x.loop
    let (s', completed) := s.reactorCb i d c.sys
    (⟨s', callbacks, x.kernel && s.reactorKernel i d c.sys⟩, if completed then some d else none)

def IoLoop.interestOf (s : IoLoop) (i : ℕ) : Mask :=
  ((s.mem i).map fun o ↦ o.proactor.reactorEvents).getD .empty

theorem IoLoop.interestOf_update {s s' : IoLoop} {i : ℕ} {o o' : Obj} (ho : s.mem i = some o)
    (hmem : s'.mem = Function.update s.mem i (some o'))
    (heq : o'.proactor.reactorEvents = o.proactor.reactorEvents) : s'.interestOf =
    s.interestOf := by
  funext j
  unfold interestOf
  by_cases hj : j = i
  · subst hj
    rw [hmem, Function.update_self, ho]
    exact heq
  · rw [hmem, Function.update_of_ne hj]

theorem IoLoop.interestOf_sends (l : List (ℕ × Bool)) : ∀ s : IoLoop,
    (l.foldl IoLoop.send s).interestOf = s.interestOf := by
  induction l with
  | nil => exact fun _ ↦ rfl
  | cons n l ih =>
    intro s
    refine (ih _).trans ?_
    rcases send_mem (s := s) n with hmem | ⟨a, ha, hmem⟩
    · funext j
      unfold interestOf
      rw [hmem]
    · refine interestOf_update ha hmem ?_
      unfold Async.nanoevAsyncSend
      split_ifs <;> rfl

def loopProactors : Proactors PollState ℕ Dir where
  reactorCb := PollState.reactorCb
  reactorEvents x := x.loop.interestOf
  frame x i d := by
    unfold PollState.reactorCb
    split
    · rfl
    · next c callbacks _ =>
      refine Eq.trans ?_ (IoLoop.interestOf_sends c.sends x.loop)
      cases ho : (c.sends.foldl IoLoop.send x.loop).mem i with
      | none => exact congrArg (fun r ↦ IoLoop.interestOf r.1) (IoLoop.reactorCb_none ho)
      | some o =>
        exact IoLoop.interestOf_update ho (IoLoop.reactorCb_mem ho)
          (o.reactorCb_reactorEvents d _ _)

/-! ## A poll as a run of small steps -/

/-- The steps of `Io.Loop` that `epoll_poller_poll` is taken apart into. -/
def IoLoop.Action.ofPoller : IoLoop.Action → Bool
  | .takeQueued | .epollWait | .epollFails | .report .. | .offer _ | .pollReturn => true
  | _ => false

/-- What happens while the loop polls: these steps, and notifications. -/
def IoLoop.Action.whilePolling : IoLoop.Action → Bool
  | .asyncSend .. => true
  | a => a.ofPoller

def EpollEvent.proactor? {π : Type*} (e : EpollEvent π) : Option π :=
  match e.data with
  | .notifyfd => none
  | .proactor p => some p

/-- The loop in the course of a poll, as `Io.Loop` has it. -/
def Dispatched.view (x : Dispatched PollState ℕ Dir) (reported : List ℕ) (offers : List (ℕ × Dir)) :
    IoLoop :=
  x.state.loop.seen [] (x.events.map PollerEvent.toPair) (.polling reported offers)

section Poll

open IoLoop (maxEvents)

variable {ok : IoLoop → IoLoop.Action → Prop} {x : Dispatched PollState ℕ Dir} {i : ℕ} {d : Dir}
  {reported : List ℕ} {offers : List (ℕ × Dir)} {e : EpollEvent ℕ}

theorem reachable_sends (hok : ∀ s a, a.whilePolling = true → ok s a) (l : List (ℕ × Bool)) :
    ∀ s : IoLoop, Reachable IoLoop.step ok s (l.foldl IoLoop.send s) := by
  induction l with
  | nil => exact fun _ ↦ .refl
  | cons n l ih =>
    intro s
    obtain ⟨as, hrest⟩ := ih (s.send n)
    rw [List.foldl_cons]
    cases hstep : s.step (.asyncSend n.1 n.2) with
    | none =>
      have hsend : s.send n = s := congrArg (Option.getD · s) hstep
      rw [hsend] at hrest ⊢
      exact ⟨as, hrest⟩
    | some s' =>
      have hsend : s.send n = s' := congrArg (Option.getD · s) hstep
      rw [hsend] at hrest ⊢
      exact ⟨_, .cons (hok _ _ rfl) hstep hrest⟩

theorem sends_seen (l : List (ℕ × Bool)) {queue batch : List (ℕ × Dir)} {phase : Phase} :
    ∀ s : IoLoop, l.foldl IoLoop.send (s.seen queue batch phase) =
      (l.foldl IoLoop.send s).seen queue batch phase := by
  induction l with
  | nil => exact fun _ ↦ rfl
  | cons n l ih =>
    intro s
    rw [List.foldl_cons, IoLoop.send_seen]
    exact ih _

/-- **One offer.** -/
theorem reachable_append (hok : ∀ s a, a.whilePolling = true → ok s a)
    (hk : (epollAppendReactorEvent loopProactors maxEvents x i d).state.kernel = true) :
    Reachable IoLoop.step ok (x.view reported ((i, d) :: offers))
      ((epollAppendReactorEvent loopProactors maxEvents x i d).view reported offers) := by
  unfold epollAppendReactorEvent at hk ⊢
  split_ifs at hk ⊢ with hfull
  · -- there is no room: the offer is not made
    have hbatch : ¬(x.events.map PollerEvent.toPair).length < maxEvents := by
      rw [List.length_map]
      omega
    exact Reachable.refl.tail (hok _ (.offer (.ok 0)) rfl) (if_neg hbatch)
  · have hroom : (x.events.map PollerEvent.toPair).length < maxEvents := by
      rw [List.length_map]
      omega
    cases hc : x.state.callbacks with
    | nil =>
      simp only [loopProactors, PollState.reactorCb, hc] at hk
      cases hk
    | cons c callbacks =>
      simp only [loopProactors, PollState.reactorCb, hc, Bool.and_eq_true] at hk ⊢
      have hsends := reachable_sends hok c.sends (x.view reported ((i, d) :: offers))
      rw [Dispatched.view, sends_seen] at hsends
      refine hsends.tail (hok _ (.offer c.sys) rfl) ((IoLoop.step_offer hk.2 hroom).trans ?_)
      rw [Dispatched.view, List.map_append]
      cases ((c.sends.foldl IoLoop.send x.state.loop).reactorCb i d c.sys).2 <;> rfl

theorem kernel_of_append
    (h : (epollAppendReactorEvent loopProactors maxEvents x i d).state.kernel = true) :
    x.state.kernel = true := by
  unfold epollAppendReactorEvent at h
  split_ifs at h
  · exact h
  · cases hc : x.state.callbacks with
    | nil =>
      simp only [loopProactors, PollState.reactorCb, hc] at h
      cases h
    | cons c callbacks =>
      simp only [loopProactors, PollState.reactorCb, hc, Bool.and_eq_true] at h
      exact h.1

theorem kernel_of_offerAll (ds : List Dir) : ∀ x : Dispatched PollState ℕ Dir,
    (offerAll loopProactors maxEvents i x ds).state.kernel = true → x.state.kernel = true := by
  induction ds with
  | nil => exact fun _ h ↦ h
  | cons d ds ih => exact fun x h ↦ kernel_of_append (ih _ h)

theorem reachable_offerAll (hok : ∀ s a, a.whilePolling = true → ok s a) (ds : List Dir) :
    ∀ x : Dispatched PollState ℕ Dir,
      (offerAll loopProactors maxEvents i x ds).state.kernel = true →
      Reachable IoLoop.step ok (x.view reported (ds.map fun d ↦ (i, d)))
        ((offerAll loopProactors maxEvents i x ds).view reported []) := by
  induction ds with
  | nil => exact fun _ _ ↦ .refl
  | cons d ds ih =>
    intro x hk
    obtain ⟨as, hrest⟩ := ih (epollAppendReactorEvent loopProactors maxEvents x i d) hk
    exact (reachable_append hok (kernel_of_offerAll ds _ hk)).trans_run hrest

theorem awaited_append (h : x.state.loop.awaited e = true) (hne : e.data ≠ .proactor i) :
    (epollAppendReactorEvent loopProactors maxEvents x i d).state.loop.awaited e = true := by
  unfold epollAppendReactorEvent
  split_ifs
  · exact h
  · cases hc : x.state.callbacks with
    | nil =>
      simp only [loopProactors, PollState.reactorCb, hc]
      exact h
    | cons c callbacks =>
      simp only [loopProactors, PollState.reactorCb, hc]
      refine (IoLoop.awaited_congr fun j hj ↦ ?_).trans (IoLoop.awaited_sends c.sends h)
      have hji : j ≠ i := fun hji ↦ hne (hji ▸ hj)
      cases ho : (c.sends.foldl IoLoop.send x.state.loop).mem i with
      | none => rw [IoLoop.reactorCb_none ho]
      | some o => rw [IoLoop.reactorCb_mem ho, Function.update_of_ne hji]

theorem awaited_offerAll (hne : e.data ≠ .proactor i) (ds : List Dir) :
    ∀ x : Dispatched PollState ℕ Dir, x.state.loop.awaited e = true →
      (offerAll loopProactors maxEvents i x ds).state.loop.awaited e = true := by
  induction ds with
  | nil => exact fun _ h ↦ h
  | cons d ds ih => exact fun x h ↦ ih _ (awaited_append h hne)

/-- **One entry**: the report and the offers. -/
theorem reachable_entry (hok : ∀ s a, a.whilePolling = true → ok s a)
    (hk : (epollDispatchEntry loopProactors maxEvents x e).state.kernel = true)
    (hawaited : x.state.loop.awaited e = true) (hnew : ∀ i, e.proactor? = some i → i ∉ reported)
    (hroom : reported.length < maxEvents) :
    ∃ reported', Reachable IoLoop.step ok (x.view reported [])
        ((epollDispatchEntry loopProactors maxEvents x e).view reported' []) ∧
      (∀ i ∈ reported', i ∈ reported ∨ e.proactor? = some i) ∧
      reported'.length ≤ reported.length + 1 := by
  obtain ⟨data, b⟩ := e
  cases data with
  | notifyfd => exact ⟨reported, .refl, fun i hi ↦ .inl hi, Nat.le_succ _⟩
  | proactor i =>
    obtain ⟨o, ho, hr⟩ := IoLoop.awaited_proactor.mp hawaited
    have hinterest : loopProactors.reactorEvents x.state i = o.proactor.reactorEvents := by
      simp only [loopProactors, IoLoop.interestOf, ho, Option.map_some, Option.getD_some]
    rw [epollDispatchEntry_eq, hinterest] at hk ⊢
    have hoffers := EpollBits.map_directions b o.proactor.reactorEvents i
    cases hb : b.report with
    | none =>
      -- no bit that is tested is set
      rw [hb] at hoffers
      rw [List.map_eq_nil_iff.mp hoffers]
      exact ⟨reported, .refl, fun i hi ↦ .inl hi, Nat.le_succ _⟩
    | some r =>
      rw [hb, Option.map_some, Option.getD_some] at hoffers
      obtain ⟨hpossible, hallowed⟩ := hr r hb
      have hstep : (x.view reported []).step (.report i r) =
          some (x.view (i :: reported) (r.offers i o.proactor.reactorEvents)) := by
        have hmem : (x.view reported []).mem i = some o := ho
        have hphase : (x.view reported []).phase = .polling reported [] := rfl
        simp only [IoLoop.step, hmem, hphase]
        exact if_pos ⟨hnew i rfl, hroom, hpossible, hallowed⟩
      obtain ⟨as, hrest⟩ : Reachable IoLoop.step ok
          (x.view (i :: reported) ((b.directions o.proactor.reactorEvents).map fun d ↦ (i, d))) _ :=
        reachable_offerAll hok _ x hk
      rw [hoffers] at hrest
      refine ⟨i :: reported, (Reachable.refl.tail (hok _ _ rfl) hstep).trans_run hrest,
        fun j hj ↦ ?_, le_rfl⟩
      rcases List.mem_cons.mp hj with rfl | hj
      · exact .inr rfl
      · exact .inl hj

theorem kernel_of_entry
    (h : (epollDispatchEntry loopProactors maxEvents x e).state.kernel = true) :
    x.state.kernel = true := by
  obtain ⟨data, b⟩ := e
  cases data with
  | notifyfd => exact h
  | proactor i =>
    rw [epollDispatchEntry_eq] at h
    exact kernel_of_offerAll _ _ h

theorem kernel_of_dispatch (entries : List (EpollEvent ℕ)) : ∀ x : Dispatched PollState ℕ Dir,
    (epollDispatch loopProactors maxEvents x entries).state.kernel = true →
      x.state.kernel = true := by
  induction entries with
  | nil => exact fun _ h ↦ h
  | cons e entries ih => exact fun x h ↦ kernel_of_entry (ih _ h)

theorem awaited_entry {e' : EpollEvent ℕ} (h : x.state.loop.awaited e' = true)
    (hne : ∀ i, e.proactor? = some i → e'.proactor? ≠ some i) :
    (epollDispatchEntry loopProactors maxEvents x e).state.loop.awaited e' = true := by
  obtain ⟨data, b⟩ := e
  cases data with
  | notifyfd => exact h
  | proactor i =>
    rw [epollDispatchEntry_eq]
    refine awaited_offerAll (fun heq ↦ hne i rfl ?_) _ x h
    rw [EpollEvent.proactor?, heq]

/-- **The loop over the entries** is a run of small steps, if the entries are about different events
that are there and interested. -/
theorem reachable_dispatch (hok : ∀ s a, a.whilePolling = true → ok s a)
    (entries : List (EpollEvent ℕ)) : ∀ {x : Dispatched PollState ℕ Dir} {reported : List ℕ},
      (epollDispatch loopProactors maxEvents x entries).state.kernel = true →
      (∀ e ∈ entries, x.state.loop.awaited e = true) →
      (entries.filterMap EpollEvent.proactor?).Nodup →
      (∀ i ∈ entries.filterMap EpollEvent.proactor?, i ∉ reported) →
      reported.length + entries.length ≤ maxEvents →
      ∃ reported', Reachable IoLoop.step ok (x.view reported [])
        ((epollDispatch loopProactors maxEvents x entries).view reported' []) := by
  induction entries with
  | nil => exact fun {_ reported} _ _ _ _ _ ↦ ⟨reported, .refl⟩
  | cons e entries ih =>
    intro x reported hk hawaited hnodup hnew hroom
    have hother : ∀ e' ∈ entries, ∀ i, e.proactor? = some i → e'.proactor? ≠ some i := by
      intro e' he' i hi hi'
      rw [List.filterMap_cons, hi, List.nodup_cons] at hnodup
      exact hnodup.1 (List.mem_filterMap.mpr ⟨e', he', hi'⟩)
    have hrestNodup : (entries.filterMap EpollEvent.proactor?).Nodup :=
      hnodup.sublist ((List.sublist_cons_self e entries).filterMap _)
    rw [List.length_cons] at hroom
    obtain ⟨reported₁, hfirst, hmem, hlength⟩ := reachable_entry hok
      (kernel_of_dispatch entries _ hk) (hawaited e List.mem_cons_self)
      (fun i hi ↦ hnew i (List.mem_filterMap.mpr ⟨e, List.mem_cons_self, hi⟩)) (by omega)
    have hrestNew : ∀ i ∈ entries.filterMap EpollEvent.proactor?, i ∉ reported₁ := by
      intro i hi hin
      obtain ⟨e', he', hi'⟩ := List.mem_filterMap.mp hi
      rcases hmem i hin with hin | hin
      · exact hnew i (List.mem_filterMap.mpr ⟨e', List.mem_cons_of_mem _ he', hi'⟩) hin
      · exact hother e' he' i hin hi'
    obtain ⟨reported₂, as, hrest⟩ := ih hk
      (fun e' he' ↦ awaited_entry (hawaited e' (List.mem_cons_of_mem _ he')) (hother e' he'))
      hrestNodup hrestNew (by omega)
    exact ⟨reported₂, hfirst.trans_run hrest⟩

end Poll

/-! ## The queue is only filled outside of a poll -/

namespace IoLoop

variable {s s' : IoLoop} {a : Action}

/-- The loop with the completions `q` before those in its queue. -/
def behind (q : List (ℕ × Dir)) (s : IoLoop) : IoLoop := { s with queue := q ++ s.queue }

theorem store_behind (q : List (ℕ × Dir)) (s : IoLoop) (p : Option ℕ) (cur : Cursor) :
    (s.behind q).store p cur = (s.store p cur).behind q := by
  cases cur with
  | head => rfl
  | next i =>
    have hmem : (s.behind q).mem i = s.mem i := rfl
    simp only [store, hmem]
    split <;> rfl

theorem freeProactor_behind (q : List (ℕ × Dir)) (s : IoLoop) (i : ℕ) (o : Obj) :
    (s.behind q).freeProactor i o = (s.freeProactor i o).behind q := by
  unfold freeProactor
  split <;> rfl

theorem endgameLoop_behind (q : List (ℕ × Dir)) (fuel : ℕ) : ∀ (s : IoLoop) (cur : Cursor),
    endgameLoop fuel (s.behind q) cur = (endgameLoop fuel s cur).map (behind q) := by
  induction fuel with
  | zero => exact fun _ _ ↦ rfl
  | succ fuel ih =>
    intro s cur
    have hload : (s.behind q).load cur = s.load cur := by cases cur <;> rfl
    have hmem : (s.behind q).mem = s.mem := rfl
    simp only [endgameLoop, hload, hmem]
    split
    · rfl
    · next i _ =>
      split
      · rfl
      · next o _ =>
        have hstep : (s.behind q).endgameStep cur i o =
            ((s.endgameStep cur i o).1.behind q, (s.endgameStep cur i o).2) := by
          unfold endgameStep
          split_ifs
          · rw [freeProactor_behind, store_behind]
          · rfl
        rw [hstep]
        exact ih _ _

theorem dispatch_behind (q : List (ℕ × Dir)) (s : IoLoop) (i : ℕ) (d : Dir)
    (rest : List (ℕ × Dir)) (sys : Sys) :
    (s.behind q).dispatch i d rest sys = (s.dispatch i d rest sys).behind q := by
  have hmem : (s.behind q).mem i = s.mem i := rfl
  simp only [dispatch, hmem]
  split
  · next t _ =>
    have hfresh : (s.behind q).fresh = s.fresh := rfl
    simp only [dispatchTcp, hfresh]
    cases (t.tcpProactorCallback d sys s.fresh).2.1 <;>
      simp only [addClient, behind, deliver, perform, put, List.append_assoc]
  · simp only [dispatchUdp, behind, deliver, perform, put, List.append_assoc]
  · simp only [dispatchAsync, behind, deliver, perform, put, List.append_assoc]
  · rfl

theorem step_behind (ha : a.ofPoller = false) (q : List (ℕ × Dir)) (s : IoLoop) :
    (s.behind q).step a = (s.step a).map (behind q) := by
  have hlive : (s.behind q).live = s.live := rfl
  have hmem : (s.behind q).mem = s.mem := rfl
  have hphase : (s.behind q).phase = s.phase := rfl
  have hbatch : (s.behind q).batch = s.batch := rfl
  cases a with
  | new type | runEnter | timerFires | callbackReturn =>
    simp only [step, hphase]
    split <;> rfl
  | free i =>
    simp only [step, hlive, hphase]
    split
    · next o _ =>
      split
      · simp only [eventFree, freeProactor_behind]
        rfl
      · rfl
    · rfl
  | tcp i c sys =>
    simp only [step, hlive, hphase]
    split
    · split
      · simp only [Option.map_some, behind, tcpCall, perform, put, fresh, List.append_assoc]
      · rfl
    · rfl
  | udp i c sys =>
    simp only [step, hlive, hphase]
    split
    · split
      · simp only [Option.map_some, behind, udpCall, perform, put, fresh, List.append_assoc]
      · rfl
    · rfl
  | asyncStart i sys =>
    simp only [step, hlive, hphase]
    split
    · split
      · simp only [Option.map_some, behind, asyncStart, perform, put, fresh, List.append_assoc]
      · rfl
    · rfl
  | asyncSend i written =>
    simp only [step, hlive]
    split
    · split <;> rfl
    · rfl
  | timeoutFires i d sys =>
    simp only [step, hmem, hphase]
    split
    · split
      · simp only [Option.map_some, behind, timeoutFires, perform, put, List.append_assoc]
      · rfl
    · rfl
  | processEndgame =>
    simp only [step, hphase]
    split
    · have hnext : (s.behind q).nextEvent = s.nextEvent := rfl
      simp only [processEndgameProactor, hnext, endgameLoop_behind, Option.map_map]
      rfl
    · rfl
  | dispatch sys =>
    simp only [step, hphase, hbatch]
    split
    · exact congrArg some (dispatch_behind ..)
    · rfl
  | nextRound | runExit =>
    simp only [step, hphase, hbatch]
    split <;> rfl
  | takeQueued | epollWait | epollFails | report _ _ | offer _ | pollReturn => cases ha

theorem store_queue (p : Option ℕ) (cur : Cursor) : (s.store p cur).queue = s.queue := by
  cases cur with
  | head => rfl
  | next i =>
    simp only [store]
    split <;> rfl

theorem endgameLoop_queue (fuel : ℕ) : ∀ {s s' : IoLoop} {cur : Cursor},
    endgameLoop fuel s cur = some s' → s'.queue = s.queue := by
  induction fuel with
  | zero => exact fun h ↦ by cases h
  | succ fuel ih =>
    intro s s' cur h
    rw [endgameLoop] at h
    split at h
    · rw [← Option.some.inj h]
    · split at h
      · cases h
      · refine (ih h).trans ?_
        unfold endgameStep
        split_ifs
        · exact (store_queue ..).trans (Wf.freeProactor_traffic ..).1
        · rfl

/-- The result of `submit_fake_io` in a call. -/
def Action.submit : Action → Bool
  | .tcp _ _ sys | .udp _ _ sys => sys.submit
  | _ => false

/-- The action with the given result of `submit_fake_io`. -/
def Action.withSubmit (submit : Bool) : Action → Action
  | .tcp i c sys => .tcp i c { sys with submit }
  | .udp i c sys => .udp i c { sys with submit }
  | a => a

theorem Action.submit_withSubmit {submit : Bool} (h : (a.withSubmit submit).submit = true) :
    submit = true := by
  cases a with
  | tcp | udp => exact h
  | _ => cases h

theorem Action.ofPoller_withSubmit (submit : Bool) :
    (a.withSubmit submit).ofPoller = a.ofPoller := by
  cases a <;> rfl

/-- Outside of a poll, at most one completion is submitted in a step, and only if the poller has
taken it. -/
theorem step_submitted (ha : a.ofPoller = false) (h : s.step a = some s') (hs : s.queue = []) :
    s'.queue = [] ∨ ∃ e, s'.queue = [e] ∧ a.submit = true := by
  have hnone : ∀ {i : ℕ} {effects : List IoEffect},
      effects.filterMap IoEffect.submitted? = [] →
      s.queue ++ (effects.filterMap IoEffect.submitted?).map (fun d ↦ (i, d)) = [] := by
    intro i effects heffects
    rw [hs, heffects]
    rfl
  cases step_eq_some h with
  | tcp =>
    rename_i i t c sys ho hf hp hk
    rcases c.run_submitted t s.nextOp sys s.fresh with hnil | ⟨d, hd, hsubmit⟩
    · exact .inl (hnone hnil)
    · refine .inr ⟨(i, d), ?_, hsubmit⟩
      show s.queue ++ ((c.run t s.nextOp sys s.fresh).2.1.filterMap IoEffect.submitted?).map _ = _
      rw [hs, hd]
      rfl
  | udp =>
    rename_i i u c sys ho hf hp hk
    rcases c.run_submitted u s.nextOp sys s.fresh with hnil | ⟨d, hd, hsubmit⟩
    · exact .inl (hnone hnil)
    · refine .inr ⟨(i, d), ?_, hsubmit⟩
      show s.queue ++ ((c.run u s.nextOp sys s.fresh).2.1.filterMap IoEffect.submitted?).map _ = _
      rw [hs, hd]
      rfl
  | free ho hf hp => exact .inl ((Wf.freeProactor_traffic ..).1.trans hs)
  | asyncStart => exact .inl (hnone (Async.nanoevAsyncStart_submitted ..))
  | timeoutFires => exact .inl (hnone (Tcp.timeout_outcome _).submitted)
  | processEndgame hp hend => exact .inl ((endgameLoop_queue _ hend).trans hs)
  | dispatchTcp =>
    rename_i i t d rest sys hp hb ho
    have hout : Tcp.DispatchOutcome t d sys s.fresh _ _ _ := Tcp.dispatch_outcome d
    refine .inl (Eq.trans ?_ (hnone (i := i) hout.submitted))
    unfold dispatchTcp addClient
    dsimp only
    split <;> rfl
  | dispatchUdp => exact .inl (hnone (Udp.udpProactorCallback_submitted ..))
  | dispatchAsync => exact .inl (hnone (Async.asyncProactorCallback_submitted _))
  | takeQueued | epollWait | epollFails | report | offerTcp | offerUdp | offerAsync | offerFull
  | pollReturn => cases ha
  | _ => exact .inl hs

end IoLoop

/-! ## The loop with its poller -/

namespace EpollPoller

variable {α : Type*} (p : EpollPoller α)

/-- A submission finds room in the array, or memory for more. -/
def hasRoom (alloc : Bool) : Bool :=
  alloc || decide (p.compact.1.eventsCount ≠ p.compact.1.eventsCapacity)

theorem epollPollerSubmit_of_hasRoom {alloc : Bool} (h : p.hasRoom alloc = true) (event : α) :
    (p.epollPollerSubmit event alloc).ret = 0 := by
  simp only [hasRoom, Bool.or_eq_true, decide_eq_true_eq] at h
  unfold epollPollerSubmit
  dsimp only
  split_ifs with hfull halloc
  · rfl
  · exact absurd hfull (h.resolve_left halloc)
  · rfl

end EpollPoller

structure PollLoop where
  poller : EpollPoller (PollerEvent ℕ Dir)
  loop : IoLoop
  /-- The completions that are submitted are in the poller. -/
  queue_eq : loop.queue = []

/-- The kernel may return this from `epoll_wait`: at most as many entries as there is room for, each
for another event that is there and interested. -/
def WaitResult.possible (s : IoLoop) : WaitResult ℕ → Bool
  | .ready entries =>
    decide (entries.length ≤ IoLoop.maxEvents) &&
      decide (entries.filterMap EpollEvent.proactor?).Nodup && entries.all s.awaited
  | _ => true

namespace PollLoop

inductive Action
  /-- A step outside of `epoll_poller_poll`; `alloc` is whether there is memory if the array of the
  poller has to be enlarged in it. -/
  | io (a : IoLoop.Action) (alloc : Bool)
  | poll (wait : WaitResult ℕ) (callbacks : List Callback)

/-- A loop without events; the contents of the cells of the poller are arbitrary. -/
def init (cells : ℕ → PollerEvent ℕ Dir) : PollLoop := ⟨.epollPollerCreate cells, .init, rfl⟩

/-- `submit_fake_io`, for each of the completions. -/
def submitAll (alloc : Bool) (p : EpollPoller (PollerEvent ℕ Dir)) (l : List (ℕ × Dir)) :
    EpollPoller (PollerEvent ℕ Dir) :=
  l.foldl (fun p e ↦ (p.epollPollerSubmit ⟨e.1, e.2⟩ alloc).poller) p

/-- `nanoev_loop_run` returns when `poller_poll` fails, and works off the batch otherwise. -/
def afterPoll : Option ℕ → Phase
  | none => .idle
  | some _ => .dispatching

def step (x : PollLoop) : Action → Option PollLoop
  | .io a alloc =>
    if a.ofPoller then none
    else
      (x.loop.step (a.withSubmit (x.poller.hasRoom alloc))).map fun s ↦
        ⟨submitAll alloc x.poller s.queue, s.seen [] s.batch s.phase, rfl⟩
  | .poll wait callbacks =>
    if x.loop.phase = .waiting ∧ wait.possible x.loop then
      let r := epollPollerPoll loopProactors IoLoop.maxEvents x.poller
        ⟨x.loop, callbacks, true⟩ wait
      if r.state.kernel then
        some ⟨r.poller,
          r.state.loop.seen [] (r.events.map PollerEvent.toPair) (afterPoll r.ret), rfl⟩
      else none
    else none

/-- The loop that `Io.Loop` describes: its queue is the window of the poller. -/
def ioLoop (x : PollLoop) : IoLoop := x.loop.behind (x.poller.contents.map PollerEvent.toPair)

/-- The client meets `ok`. -/
def meets (ok : IoLoop → IoLoop.Action → Prop) (x : PollLoop) : Action → Prop
  | .io a alloc => ok x.ioLoop (a.withSubmit (x.poller.hasRoom alloc))
  | .poll .. => True

instance {ok : IoLoop → IoLoop.Action → Prop} [∀ s a, Decidable (ok s a)] (x : PollLoop) :
    ∀ a, Decidable (meets ok x a)
  | .io _ _ => inferInstanceAs (Decidable (ok _ _))
  | .poll .. => inferInstanceAs (Decidable True)

variable {ok : IoLoop → IoLoop.Action → Prop} {x y : PollLoop}

theorem step_io {a : IoLoop.Action} {alloc : Bool} (h : x.step (.io a alloc) = some y) :
    x.ioLoop.step (a.withSubmit (x.poller.hasRoom alloc)) = some y.ioLoop := by
  simp only [step] at h
  split_ifs at h with ha
  obtain ⟨s, hs, rfl⟩ := Option.map_eq_some_iff.mp h
  have hpoller : (a.withSubmit (x.poller.hasRoom alloc)).ofPoller = false := by
    rw [IoLoop.Action.ofPoller_withSubmit]
    exact Bool.eq_false_of_not_eq_true ha
  rw [ioLoop, IoLoop.step_behind hpoller, hs, Option.map_some]
  -- what has been submitted is in the array now
  have hcontents : x.poller.contents.map PollerEvent.toPair ++ s.queue =
      (submitAll alloc x.poller s.queue).contents.map PollerEvent.toPair := by
    rcases IoLoop.step_submitted hpoller hs x.queue_eq with hnil | ⟨e, he, hsubmit⟩
    · rw [hnil, List.append_nil]
      rfl
    · have hroom := IoLoop.Action.submit_withSubmit hsubmit
      have hret := x.poller.epollPollerSubmit_of_hasRoom hroom ⟨e.1, e.2⟩
      obtain ⟨⟨-, happend⟩ | ⟨hfail, -⟩, -⟩ := x.poller.epollPollerSubmit_spec ⟨e.1, e.2⟩ alloc
      · rw [he, submitAll, List.foldl_cons, List.foldl_nil, happend, List.map_append]
        rfl
      · rw [hret] at hfail
        cases hfail
  refine congrArg some ?_
  unfold ioLoop IoLoop.behind IoLoop.seen
  rw [hcontents]
  dsimp only
  rw [List.append_nil]

theorem ioLoop_eq (hphase : x.loop.phase = .waiting) (hbatch : x.loop.batch = []) :
    x.ioLoop = x.loop.seen (x.poller.contents.map PollerEvent.toPair) [] .waiting := by
  unfold ioLoop IoLoop.behind IoLoop.seen
  rw [x.queue_eq, List.append_nil, hphase, hbatch]

theorem ioLoop_seen (p : EpollPoller (PollerEvent ℕ Dir)) (s : IoLoop) (batch : List (ℕ × Dir))
    (phase : Phase) : (⟨p, s.seen [] batch phase, rfl⟩ : PollLoop).ioLoop =
      s.seen (p.contents.map PollerEvent.toPair) batch phase := by
  unfold ioLoop IoLoop.behind IoLoop.seen
  dsimp only
  rw [List.append_nil]

/-- **A poll is a run of small steps.** -/
theorem reachable_poll (hok : ∀ s a, a.whilePolling = true → ok s a) (hwf : x.ioLoop.Wf)
    {wait : WaitResult ℕ} {callbacks : List Callback}
    (h : x.step (.poll wait callbacks) = some y) :
    Reachable IoLoop.step ok x.ioLoop y.ioLoop := by
  simp only [step] at h
  split_ifs at h with hguard hk
  obtain ⟨hphase, hpossible⟩ := hguard
  obtain rfl := Option.some.inj h
  have hbatch : x.loop.batch = [] := hwf.batch_of_phase hphase rfl
  rw [ioLoop_eq hphase hbatch, ioLoop_seen]
  by_cases hp : x.poller.contents = []
  · -- the kernel is asked, from a queue that is empty and stays so
    have hcount : ¬0 < x.poller.eventsCount := fun hpos ↦ x.poller.contents_ne_nil_iff.mpr hpos hp
    have hwait : Reachable IoLoop.step ok (x.loop.seen [] [] .waiting)
        (x.loop.seen [] [] (.polling [] [])) :=
      Reachable.refl.tail (hok _ _ rfl) IoLoop.step_epollWait
    rw [(epollPollerPoll_empty loopProactors hp _ _ _).1, hp, List.map_nil]
    simp only [epollPollerPoll, if_neg hcount] at hk ⊢
    cases wait with
    | failed e => exact Reachable.refl.tail (hok _ _ rfl) IoLoop.step_epollFails
    | interrupted => exact hwait.tail (hok _ _ rfl) IoLoop.step_pollReturn
    | ready entries =>
      simp only [WaitResult.possible, Bool.and_eq_true, decide_eq_true_eq, List.all_eq_true]
        at hpossible
      obtain ⟨⟨hlength, hnodup⟩, hawaited⟩ := hpossible
      obtain ⟨reported, as, hrun⟩ := reachable_dispatch hok entries hk hawaited hnodup
        (fun _ _ ↦ List.not_mem_nil) (by rwa [List.length_nil, Nat.zero_add])
      exact (hwait.trans_run hrun).tail (hok _ _ rfl) IoLoop.step_pollReturn
  · -- the completions in the array are taken
    have hne : x.poller.contents.map PollerEvent.toPair ≠ [] :=
      fun hnil ↦ hp (List.map_eq_nil_iff.mp hnil)
    obtain ⟨hevents, hrest, -⟩ := epollPollerPoll_queued loopProactors hp IoLoop.maxEvents
      ⟨x.loop, callbacks, true⟩ wait
    rw [hevents, hrest, List.map_take, List.map_drop]
    simp only [epollPollerPoll, if_pos (x.poller.contents_ne_nil_iff.mp hp)]
    exact Reachable.refl.tail (hok _ _ rfl) (IoLoop.step_takeQueued hne)

/-- **The loop with the code of the poller refines the loop of small steps.** Every state that it
reaches, with the contents of the array of the poller for the queue, is one that the small steps
reach, for every condition on the client that leaves the loop free to poll and other threads free to
send notifications. -/
theorem reachable_ioLoop {cells : ℕ → PollerEvent ℕ Dir}
    (hok : ∀ s a, a.whilePolling = true → ok s a)
    (h : Reachable step (meets ok) (init cells) x) :
    Reachable IoLoop.step ok IoLoop.init x.ioLoop := by
  refine h.invariant (I := fun x ↦ Reachable IoLoop.step ok IoLoop.init x.ioLoop) .refl ?_
  intro x a y hx hmeets hstep
  cases a with
  | io a alloc => exact hx.tail hmeets (step_io hstep)
  | poll wait callbacks =>
    obtain ⟨as, hrun⟩ := reachable_poll hok (IoLoop.wf_of_reachable hx) hstep
    exact hx.trans_run hrun

/-- A connection is made in a poll in which another thread sends a notification. The write that is
started on it is done at once, so its completion goes through the array of the poller, and the next
poll takes it from there. -/
def connectAndWrite : List Action :=
  [.io (.new .tcp) true, .io (.new .async) true, .io (.asyncStart 1 (.ok 0)) true,
    .io (.tcp 0 (.connect true none true) { Sys.ok 0 with connect := .inProgress }) true,
    .io .runEnter true, .io .processEndgame true,
    .poll (.ready [⟨.notifyfd, ⟨true, false, false, false⟩⟩,
      ⟨.proactor 0, ⟨false, true, false, false⟩⟩])
      [⟨[(1, true)], { Sys.ok 0 with io := .wouldBlock }⟩],
    .io (.dispatch (.ok 0)) true,
    .io (.tcp 0 (.write ⟨4, 8⟩ none true) { Sys.ok 0 with io := .done 4 }) true,
    .io .callbackReturn true, .io .nextRound true, .io .processEndgame true,
    .poll .interrupted []]

theorem reachable_ioLoop_connectAndWrite :
    ∃ x, Reachable step (meets anyStep) (init fun _ ↦ ⟨0, .read⟩) x ∧
      x.loop.batch = [(0, .write)] ∧ x.poller.eventsCapacity = 128 ∧ x.poller.contents = [] ∧
      Reachable IoLoop.step anyStep IoLoop.init x.ioLoop := by
  have hrun : (exec step (meets anyStep) (init fun _ ↦ ⟨0, .read⟩) connectAndWrite).map
      (fun x ↦ (x.loop.batch, x.poller.eventsCapacity, x.poller.contents)) =
      some ([(0, .write)], 128, []) := by decide +kernel
  obtain ⟨x, hexec, heq⟩ := Option.map_eq_some_iff.mp hrun
  simp only [Prod.mk.injEq] at heq
  obtain ⟨hbatch, hcapacity, hcontents⟩ := heq
  have hreach := Reachable.of_exec hexec
  exact ⟨x, hreach, hbatch, hcapacity, hcontents,
    reachable_ioLoop (fun _ _ _ ↦ trivial) hreach⟩

end PollLoop

end Nanoev
