import Nanoev.Poller.Epoll
import Nanoev.Threads.Break

/-!
# Notifications in the two Unix pollers

`poller_notify` makes the `poller_poll` that is running, or the next one, return before its
time-out. In the epoll backend it increments an eventfd, and the poll that finds the eventfd
readable reads it, which resets it. In the kqueue backend it triggers an event with the filter
`EVFILT_USER`; the poll that finds it skips it, and nothing else resets it: an event that is
registered without `EV_CLEAR` stays triggered when it is retrieved, and `kqueue_poller_create`
registers it with `EV_ADD` alone.

What both are for is a latch: a notification sets it, a poll reports it and resets it (`latchTrace`
with `clears`). The epoll backend behaves like this latch in every sequence of calls. The kqueue
backend behaves like a latch that is never reset. The two can be told apart exactly by the
sequences in which a poll follows a notification that an earlier poll has already reported
(`renewed`); from then on every poll of the kqueue backend returns at once.
-/

namespace Nanoev

open Transition

/-! ## The kqueue poller -/

/-- What `kevent` returns: an event with the filter `EVFILT_USER`, or one with the filter
`EVFILT_READ` or `EVFILT_WRITE` and a proactor as its user data. -/
inductive KEvent (π : Type*)
  | user
  | read (p : π)
  | write (p : π)
deriving DecidableEq, Repr

/-- The result of `kevent`; nothing is ready when the time is over. -/
inductive KEventResult (π : Type*)
  | ready (entries : List (KEvent π))
  | interrupted
  | failed (e : Errno)

section Kqueue

variable {σ π κ : Type*} (P : Proactors σ π κ) (maxEvents : ℕ)

/-- `reactor_cb` is called, and the context that it returns is stored. There is no test for room. -/
def kqueueAppend (x : Dispatched σ π κ) (p : π) (d : Dir) : Dispatched σ π κ :=
  let (state, ctx) := P.reactorCb x.state p d
  ⟨state, x.events ++ (ctx.map fun c ↦ ⟨p, c⟩).toList, x.offered ++ [(p, d)]⟩

/-- The body of the loop in `kqueue_poller_poll`. -/
def kqueueDispatchEntry (x : Dispatched σ π κ) : KEvent π → Dispatched σ π κ
  | .user => x
  | .read p => kqueueAppend P x p .read
  | .write p => kqueueAppend P x p .write

/-- The loop in `kqueue_poller_poll`. -/
def kqueueDispatch (x : Dispatched σ π κ) (entries : List (KEvent π)) : Dispatched σ π κ :=
  entries.foldl (kqueueDispatchEntry P) x

/-- `kqueue_poller_poll`; `wait` is what `kevent` returns if it is called. The array of completions
is the same as in the epoll poller, field by field. -/
def kqueuePollerPoll (p : EpollPoller (PollerEvent π κ)) (state : σ) (wait : KEventResult π) :
    Polled σ π κ :=
  if 0 < p.eventsCount then
    let (p', events, accesses) := p.takeQueued maxEvents
    ⟨p', state, events, some events.length, accesses⟩
  else
    match wait with
    | .failed _ => ⟨p, state, [], none, []⟩
    | .interrupted => ⟨p, state, [], some 0, []⟩
    | .ready entries =>
      let x := kqueueDispatch P ⟨state, [], []⟩ entries
      ⟨p, x.state, x.events, some x.events.length, []⟩

end Kqueue

/-! ## Notifications -/

inductive NotifyCall
  | notify
  | poll
deriving DecidableEq, Repr

/-- A poller that is only notified and polled. A notification may have to wait; a poll says whether
it has returned before its time-out. -/
structure Notifier (ν : Type*) where
  create : ν
  notify : ν → Option ν
  poll : ν → ν × Bool

namespace Notifier

variable {ν : Type*} (B : Notifier ν)

def call (x : ν) : NotifyCall → Option ν
  | .notify => B.notify x
  | .poll => some (B.poll x).1

def early (x : ν) : NotifyCall → List Bool
  | .notify => []
  | .poll => [(B.poll x).2]

/-- The calls can be made one after the other, and these are the polls that return early. -/
def HasTrace (calls : List NotifyCall) (trace : List Bool) : Prop :=
  ∃ x, Run (recording B.call B.early) anyStep (B.create, []) calls (x, trace)

/-- **A notification is consumed** in the sequences of calls that meet `ok`: after a poll that has
returned early, another one does so only if there was a notification in between. -/
def Consumes (ok : List NotifyCall → Prop) : Prop :=
  ∀ as x bs y, ok (as ++ .poll :: (bs ++ [.poll])) →
    Run B.call anyStep B.create as x → (B.poll x).2 = true →
    Run B.call anyStep (B.poll x).1 bs y → (B.poll y).2 = true → .notify ∈ bs

end Notifier

/-! ## Latches -/

/-- The polls of a latch that find it set; `clears` is whether a poll resets it. -/
def latchTrace (clears : Bool) : Bool → List NotifyCall → List Bool
  | _, [] => []
  | _, .notify :: calls => latchTrace clears true calls
  | pending, .poll :: calls => pending :: latchTrace clears (pending && !clears) calls

/-- Every poll finds a notification that no poll has reported before, or there has not been any.
`seen` is whether there has been a notification, `fresh` whether there has been one since the last
poll. -/
def renewed : Bool → Bool → List NotifyCall → Bool
  | _, _, [] => true
  | _, _, .notify :: calls => renewed true true calls
  | seen, fresh, .poll :: calls => (!seen || fresh) && renewed seen false calls

/-- A latch that is reset and one that is not give the same answers in these sequences, and in no
others. -/
theorem latchTrace_eq_iff (calls : List NotifyCall) : ∀ seen fresh : Bool,
    (fresh = true → seen = true) →
      (latchTrace true fresh calls = latchTrace false seen calls ↔
        renewed seen fresh calls = true) := by
  induction calls with
  | nil => exact fun _ _ _ ↦ ⟨fun _ ↦ rfl, fun _ ↦ rfl⟩
  | cons c calls ih =>
    intro seen fresh hle
    cases c with
    | notify => exact ih true true fun _ ↦ rfl
    | poll =>
      have hrest := ih seen false nofun
      simp only [latchTrace, renewed, Bool.not_true, Bool.and_false, Bool.not_false, Bool.and_true,
        List.cons.injEq, Bool.and_eq_true, hrest]
      refine and_congr_left fun _ ↦ ?_
      cases seen <;> cases fresh <;> simp_all

/-- In such a sequence a notification separates two polls, if there is one before the first. -/
theorem mem_of_renewed {bs cs : List NotifyCall} (as : List NotifyCall) : ∀ seen fresh : Bool,
    renewed seen fresh (as ++ .poll :: (bs ++ .poll :: cs)) = true →
      seen = true ∨ .notify ∈ as → .notify ∈ bs := by
  -- after the first of the two polls
  have hbetween : ∀ bs : List NotifyCall, renewed true false (bs ++ .poll :: cs) = true →
      .notify ∈ bs := by
    intro bs
    induction bs with
    | nil => exact fun h ↦ absurd h (by simp [renewed])
    | cons c bs ih =>
      intro h
      cases c with
      | notify => exact List.mem_cons_self
      | poll =>
        simp only [List.cons_append, renewed, Bool.and_eq_true] at h
        exact List.mem_cons_of_mem _ (ih h.2)
  induction as with
  | nil =>
    intro seen fresh h hseen
    obtain rfl : seen = true := hseen.resolve_right List.not_mem_nil
    simp only [List.nil_append, renewed, Bool.and_eq_true] at h
    exact hbetween bs h.2
  | cons c as ih =>
    intro seen fresh h hseen
    cases c with
    | notify => exact ih true true h (Or.inl rfl)
    | poll =>
      simp only [List.cons_append, renewed, Bool.and_eq_true] at h
      refine ih seen false h.2 (hseen.imp_right fun hmem ↦ ?_)
      exact (List.mem_cons.mp hmem).resolve_left nofun

namespace Notifier

variable {ν : Type*} {B : Notifier ν} {clears : Bool} {pending : ν → Bool} {I : ν → Prop}

/-- In the states that meet `I`, the backend works like a latch. -/
structure Latched (B : Notifier ν) (clears : Bool) (pending : ν → Bool) (I : ν → Prop) : Prop where
  create : I B.create ∧ pending B.create = false
  notify : ∀ x y, I x → B.notify x = some y → I y ∧ pending y = true
  poll : ∀ x, I x → I (B.poll x).1 ∧ (B.poll x).2 = pending x ∧
    pending (B.poll x).1 = (pending x && !clears)

theorem Latched.trace_run (h : B.Latched clears pending I) {calls : List NotifyCall}
    {x y : ν × List Bool} (hrun : Run (recording B.call B.early) anyStep x calls y) (hx : I x.1) :
    y.2 = x.2 ++ latchTrace clears (pending x.1) calls := by
  induction hrun with
  | nil x => rw [latchTrace, List.append_nil]
  | @cons x z y c calls _ hstep _ ih =>
    obtain ⟨hcall, htrace⟩ := recording_eq_some hstep
    cases c with
    | notify =>
      obtain ⟨hz, hpending⟩ := h.notify x.1 z.1 hx hcall
      rw [ih hz, htrace, hpending, latchTrace, early, List.append_nil]
    | poll =>
      obtain ⟨hz, hearly, hpending⟩ := h.poll x.1 hx
      obtain hcall : (B.poll x.1).1 = z.1 := Option.some.inj hcall
      rw [hcall] at hz hpending
      rw [ih hz, htrace, hpending, latchTrace, early, hearly, List.append_assoc,
        List.singleton_append]

theorem Latched.trace_eq (h : B.Latched clears pending I) {calls : List NotifyCall}
    {trace : List Bool} (htrace : B.HasTrace calls trace) :
    trace = latchTrace clears false calls := by
  obtain ⟨x, hrun⟩ := htrace
  have heq := h.trace_run hrun h.create.1
  rw [h.create.2] at heq
  exact heq

theorem Latched.mem_of_run (h : B.Latched clears pending I) {calls : List NotifyCall} {x y : ν}
    (hrun : Run B.call anyStep x calls y) (hx : I x) (hfirst : pending x = false) :
    I y ∧ (pending y = true → .notify ∈ calls) := by
  induction hrun with
  | nil x => exact ⟨hx, fun hlast ↦ absurd (hfirst.symm.trans hlast) Bool.false_ne_true⟩
  | @cons x z y c calls _ hstep hrest ih =>
    cases c with
    | notify =>
      obtain ⟨hz, -⟩ := h.notify x z hx hstep
      have hy : I y := hrest.invariant (I := I) (fun s a t hs _ hst ↦ by
        cases a with
        | notify => exact (h.notify s t hs hst).1
        | poll => exact Option.some.inj hst ▸ (h.poll s hs).1) hz
      exact ⟨hy, fun _ ↦ List.mem_cons_self⟩
    | poll =>
      obtain ⟨hz, -, hpending⟩ := h.poll x hx
      obtain hstep : (B.poll x).1 = z := Option.some.inj hstep
      rw [hstep] at hz hpending
      obtain ⟨hy, hmem⟩ := ih hz (by rw [hpending, hfirst, Bool.false_and])
      exact ⟨hy, fun hlast ↦ List.mem_cons_of_mem _ (hmem hlast)⟩

theorem Latched.consumes (h : B.Latched true pending I) : B.Consumes fun _ ↦ True := by
  intro as x bs y _ has _ hbs hy
  have hx : I x := (h.mem_of_run has h.create.1 h.create.2).1
  obtain ⟨hpoll, -, hreset⟩ := h.poll x hx
  rw [Bool.not_true, Bool.and_false] at hreset
  obtain ⟨hIy, hmem⟩ := h.mem_of_run hbs hpoll hreset
  rw [(h.poll y hIy).2.1] at hy
  exact hmem hy

/-- Any latch does so in the sequences in which the notifications are renewed. -/
theorem Latched.consumes_of_renewed (h : B.Latched clears pending I) :
    B.Consumes fun calls ↦ renewed false false calls = true := by
  intro as x bs y hok has hearly _ _
  obtain ⟨hx, hmem⟩ := h.mem_of_run has h.create.1 h.create.2
  rw [(h.poll x hx).2.1] at hearly
  exact mem_of_renewed as false false hok (Or.inr (hmem hearly))

end Notifier

/-! ## The two backends -/

/-- A poller with the kernel object that is behind its notifications. -/
structure NotifiedPoller (ν σ π κ : Type*) where
  kernel : ν
  poller : EpollPoller (PollerEvent π κ)
  state : σ

/-- The `EVFILT_USER` event of a kqueue. -/
structure UserEvent where
  /-- It was registered with `EV_CLEAR`. -/
  evClear : Bool
  triggered : Bool
deriving DecidableEq, Repr

/-- `kevent` returns the event, which `EV_CLEAR` would reset. -/
def UserEvent.retrieve (u : UserEvent) : UserEvent :=
  { u with triggered := u.triggered && !u.evClear }

section Backends

variable {σ π κ : Type*} (P : Proactors σ π κ) (maxEvents : ℕ) (cells : ℕ → PollerEvent π κ)
  (state : σ)

def notifyEntry : EpollEvent π := ⟨.notifyfd, ⟨true, false, false, false⟩⟩

/-- `epoll_poller_create`, `epoll_poller_notify` and `epoll_poller_poll`, with nothing registered
but the eventfd. The kernel object is the count of the eventfd: a write waits if it would exceed the
maximum, and the loop in `epoll_poller_poll` reads it when it is reported. -/
def epollNotifier : Notifier (NotifiedPoller ℕ σ π κ) where
  create := ⟨0, .epollPollerCreate cells, state⟩
  notify x := if x.kernel < eventfdMax then some { x with kernel := x.kernel + 1 } else none
  poll x :=
    let entries : List (EpollEvent π) := if 0 < x.kernel then [notifyEntry] else []
    let r := epollPollerPoll P maxEvents x.poller x.state (.ready entries)
    if 0 < x.poller.eventsCount then (⟨x.kernel, r.poller, r.state⟩, true)
    else (⟨if entries = [] then x.kernel else 0, r.poller, r.state⟩, !entries.isEmpty)

/-- `kqueue_poller_create`, `kqueue_poller_notify` and `kqueue_poller_poll`, with nothing registered
but the `EVFILT_USER` event. -/
def kqueueNotifier : Notifier (NotifiedPoller UserEvent σ π κ) where
  create := ⟨⟨false, false⟩, .epollPollerCreate cells, state⟩
  notify x := some { x with kernel := { x.kernel with triggered := true } }
  poll x :=
    let entries : List (KEvent π) := if x.kernel.triggered then [.user] else []
    let r := kqueuePollerPoll P maxEvents x.poller x.state (.ready entries)
    if 0 < x.poller.eventsCount then (⟨x.kernel, r.poller, r.state⟩, true)
    else (⟨if entries = [] then x.kernel else x.kernel.retrieve, r.poller, r.state⟩,
      !entries.isEmpty)

variable {P maxEvents cells state}

def NotifiedPoller.Quiet {ν : Type*} (x : NotifiedPoller ν σ π κ) : Prop :=
  x.poller.eventsCount = 0

theorem epollNotifier_poll {x : NotifiedPoller ℕ σ π κ} (hx : x.Quiet) :
    (epollNotifier P maxEvents cells state).poll x =
      (⟨0, x.poller, x.state⟩, decide (0 < x.kernel)) := by
  have hqueue : ¬0 < x.poller.eventsCount := by rw [hx]; exact Nat.lt_irrefl 0
  dsimp only [epollNotifier, epollPollerPoll]
  rw [if_neg hqueue, if_neg hqueue]
  by_cases hcount : 0 < x.kernel
  · simp only [if_pos hcount, decide_eq_true hcount]
    rfl
  · simp only [Nat.eq_zero_of_not_pos hcount]
    rfl

theorem kqueueNotifier_poll {x : NotifiedPoller UserEvent σ π κ} (hx : x.Quiet)
    (hclear : x.kernel.evClear = false) :
    (kqueueNotifier P maxEvents cells state).poll x =
      (⟨x.kernel, x.poller, x.state⟩, x.kernel.triggered) := by
  have hqueue : ¬0 < x.poller.eventsCount := by rw [hx]; exact Nat.lt_irrefl 0
  have hkeep : x.kernel.retrieve = x.kernel := by
    obtain ⟨⟨clear, triggered⟩, poller, state⟩ := x
    obtain rfl : clear = false := hclear
    exact congrArg (UserEvent.mk false) (Bool.and_true triggered)
  dsimp only [kqueueNotifier, kqueuePollerPoll]
  rw [if_neg hqueue, if_neg hqueue, hkeep, ite_self]
  cases x.kernel.triggered <;> rfl

theorem epollNotifier_latched :
    (epollNotifier P maxEvents cells state).Latched true (fun x ↦ decide (0 < x.kernel))
      NotifiedPoller.Quiet where
  create := ⟨rfl, rfl⟩
  notify := by
    intro x y hx hnotify
    obtain ⟨-, rfl⟩ := of_guard hnotify
    exact ⟨hx, decide_eq_true (Nat.succ_pos _)⟩
  poll := by
    intro x hx
    simp only [epollNotifier_poll hx, Bool.not_true, Bool.and_false]
    exact ⟨hx, trivial, rfl⟩

theorem kqueueNotifier_latched :
    (kqueueNotifier P maxEvents cells state).Latched false (fun x ↦ x.kernel.triggered)
      fun x ↦ x.Quiet ∧ x.kernel.evClear = false where
  create := ⟨⟨rfl, rfl⟩, rfl⟩
  notify := by
    intro x y hx hnotify
    obtain rfl := Option.some.inj hnotify
    exact ⟨hx, rfl⟩
  poll := by
    rintro x ⟨hx, hclear⟩
    rw [kqueueNotifier_poll hx hclear]
    exact ⟨⟨hx, hclear⟩, rfl, (Bool.and_true _).symm⟩

/-- **Where the backends consume a notification.** The epoll backend does in every sequence of
calls. The kqueue backend does in the sequences in which every poll after a notification finds a
new one; and these are exactly the sequences in which both backends return early from the same
polls. -/
theorem notifications_consumed (P : Proactors σ π κ) (maxEvents : ℕ)
    (cells : ℕ → PollerEvent π κ) (state : σ) :
    (epollNotifier P maxEvents cells state).Consumes (fun _ ↦ True) ∧
      (kqueueNotifier P maxEvents cells state).Consumes
        (fun calls ↦ renewed false false calls = true) ∧
      ∀ calls epollTrace kqueueTrace,
        (epollNotifier P maxEvents cells state).HasTrace calls epollTrace →
        (kqueueNotifier P maxEvents cells state).HasTrace calls kqueueTrace →
        (epollTrace = kqueueTrace ↔ renewed false false calls = true) := by
  refine ⟨epollNotifier_latched.consumes, kqueueNotifier_latched.consumes_of_renewed, ?_⟩
  intro calls epollTrace kqueueTrace hepoll hkqueue
  rw [epollNotifier_latched.trace_eq hepoll, kqueueNotifier_latched.trace_eq hkqueue]
  exact latchTrace_eq_iff calls false false fun h ↦ h

end Backends

def idleProactors : Proactors Unit Unit Unit where
  reactorCb s _ _ := (s, none)
  reactorEvents _ _ := .empty
  frame _ _ _ := rfl

/-- A break of the loop in each of two runs: both backends return early from both polls. -/
theorem notifications_consumed_twice :
    ∃ trace,
      (epollNotifier idleProactors 256 (fun _ ↦ ⟨(), ()⟩) ()).HasTrace
        [.notify, .poll, .notify, .poll] trace ∧
      (kqueueNotifier idleProactors 256 (fun _ ↦ ⟨(), ()⟩) ()).HasTrace
        [.notify, .poll, .notify, .poll] trace := by
  have hepoll : (epollNotifier idleProactors 256 (fun _ ↦ ⟨(), ()⟩) ()).HasTrace
      [.notify, .poll, .notify, .poll] [true, true] := ⟨_, Run.of_exec rfl⟩
  have hkqueue : (kqueueNotifier idleProactors 256 (fun _ ↦ ⟨(), ()⟩) ()).HasTrace
      [.notify, .poll, .notify, .poll] [true, true] := ⟨_, Run.of_exec rfl⟩
  have heq := (notifications_consumed idleProactors 256 _ ()).2.2 _ _ _ hepoll hkqueue
  exact ⟨_, hepoll, heq.mpr (by decide) ▸ hkqueue⟩

/-- After one notification, the second poll of the epoll backend waits, and that of the kqueue
backend returns at once, although there was no notification in between. -/
theorem exists_notification_not_consumed :
    (epollNotifier idleProactors 256 (fun _ ↦ ⟨(), ()⟩) ()).HasTrace [.notify, .poll, .poll]
        [true, false] ∧
      (kqueueNotifier idleProactors 256 (fun _ ↦ ⟨(), ()⟩) ()).HasTrace [.notify, .poll, .poll]
        [true, true] ∧
      ¬(kqueueNotifier idleProactors 256 (fun _ ↦ ⟨(), ()⟩) ()).Consumes fun _ ↦ True := by
  refine ⟨⟨_, Run.of_exec rfl⟩, ⟨_, Run.of_exec rfl⟩, fun hconsumes ↦ ?_⟩
  have hmem := hconsumes [.notify] _ [] _ trivial (Run.of_exec rfl) rfl (Run.nil _) rfl
  cases hmem

end Nanoev
