import Nanoev.Io.Offers

/-!
# The async events of a loop

An async event as a machine of its own, in the way of a TCP event. The flag `async_sent` stands for
one notification on its way: a byte in the pipe, or a completion in the batch of the loop. Nothing
sets `READING` or `WRITING` of an async event where the loop watches for readiness, so `async_sent`
is all that its deletion can wait for.
-/

namespace Nanoev

open Transition

/-- An async event and the numbers of its completions in the queue and in the batch. -/
structure AsyncView where
  a : Async
  queued : Dir → ℕ
  batched : Dir → ℕ

inductive AsyncAct
  | start
  | send
  | offer
  | dispatch
  | free
  /-- The `next` field is changed. -/
  | link
  /-- Completions move from the queue to the batch. -/
  | poll

inductive AsyncStep : AsyncView → AsyncAct → AsyncView → Prop
  | start {v : AsyncView} {op sys fresh} (hlive : v.a.deleted = false) :
    AsyncStep v .start ⟨(v.a.nanoevAsyncStart op sys fresh).1, v.queued, v.batched⟩
  | send {v : AsyncView} {written} (hlive : v.a.deleted = false) :
    AsyncStep v .send ⟨(v.a.nanoevAsyncSend written).1, v.queued, v.batched⟩
  | offer {v : AsyncView} {sys} (hk : v.a.reactorKernel sys = true)
      (hnone : v.queued .read = 0 ∧ v.batched .read = 0) :
    AsyncStep v .offer
      ⟨v.a.reactorCb sys, v.queued, Function.update v.batched .read (v.batched .read + 1)⟩
  | dispatch {v : AsyncView} {d} (hbatch : 0 < v.batched d) :
    AsyncStep v .dispatch
      ⟨v.a.asyncProactorCallback.1, v.queued, Function.update v.batched d (v.batched d - 1)⟩
  | free {v : AsyncView} {n} (hlive : v.a.deleted = false) :
    AsyncStep v .free ⟨{ v.a with deleted := true, next := n }, v.queued, v.batched⟩
  | link {v : AsyncView} {n} : AsyncStep v .link ⟨{ v.a with next := n }, v.queued, v.batched⟩
  | poll {v : AsyncView} {q b} (hbatch : ∀ d, v.batched d = 0)
      (hmoved : ∀ d, q d + b d = v.queued d) : AsyncStep v .poll ⟨v.a, q, b⟩

namespace IoLoop

def asyncView (s : IoLoop) (i : ℕ) (x : Async) : AsyncView := ⟨x, s.queued i, s.batched i⟩

/-- What is known when something is done to async event `i`. -/
def doesAsync (s : IoLoop) (i : ℕ) : AsyncAct → Prop
  | .offer => ∃ reported offers, s.phase = .polling reported ((i, .read) :: offers)
  | _ => True

variable {s s' : IoLoop} {a : Action} {j : ℕ} {x' : Async}

theorem asyncView_eq {x : Async} {q b : Dir → ℕ} (hq : s.queued j = q) (hb : s.batched j = b) :
    s.asyncView j x = ⟨x, q, b⟩ := by
  rw [asyncView, hq, hb]

/-- What a step does to an async event is a step of the machine of the event. -/
theorem Local.asyncStep (h : s.Local a s' j) (hw : s.Wf) (hx' : s'.mem j = some (.async x')) :
    (s.mem j = some (.async x') ∧ s'.asyncView j x' = s.asyncView j x') ∨
      (s.mem j = none ∧ s'.asyncView j x' = ⟨.asyncNew, fun _ ↦ 0, fun _ ↦ 0⟩) ∨
      ∃ x act, s.mem j = some (.async x) ∧ s.doesAsync j act ∧
        AsyncStep (s.asyncView j x) act (s'.asyncView j x') := by
  cases h with
  | untouched hmem hstill =>
    exact .inl ⟨hmem.symm.trans hx', asyncView_eq hstill.queued hstill.batched⟩
  | @created o hnone ho' hnew hq hb =>
    obtain rfl := Option.some.inj (ho'.symm.trans hx')
    refine .inr (.inl ⟨hnone, ?_⟩)
    rw [asyncView_eq hq hb]
    rcases hnew with ⟨type, htype⟩ | ⟨u, fd, hclient⟩
    · cases type <;> cases htype
      rfl
    · cases hclient
  | released hnone hidle hcount => rw [hnone] at hx'; cases hx'
  | polled ha hmem hbatch hmoved hpending =>
    exact .inr (.inr ⟨x', .poll, hmem.symm.trans hx', trivial, .poll hbatch hmoved⟩)
  | @linked o n ha ho ho' hstill =>
    have heq := Option.some.inj (ho'.symm.trans hx')
    cases o with
    | async x =>
      obtain rfl := Obj.async.inj heq
      rw [asyncView_eq hstill.queued hstill.batched]
      exact .inr (.inr ⟨x, .link, ho, trivial, .link⟩)
    | tcp | udp => cases heq
  | @freed o n ha ho hf hdefers ho' hstill =>
    have heq := Option.some.inj (ho'.symm.trans hx')
    cases o with
    | async x =>
      obtain rfl := Obj.async.inj heq
      rw [asyncView_eq hstill.queued hstill.batched]
      exact .inr (.inr ⟨x, .free, ho, trivial, .free ((hw.memory.deleted ho).trans hf)⟩)
    | tcp | udp => cases heq
  | @asyncStart x op sys fresh ho hf ho' hstill =>
    obtain rfl := Obj.async.inj (Option.some.inj (ho'.symm.trans hx'))
    rw [asyncView_eq hstill.queued hstill.batched]
    exact .inr (.inr ⟨x, .start, ho, trivial, .start ((hw.memory.deleted ho).trans hf)⟩)
  | @asyncSend x written ho hf ho' hstill =>
    obtain rfl := Obj.async.inj (Option.some.inj (ho'.symm.trans hx'))
    rw [asyncView_eq hstill.queued hstill.batched]
    exact .inr (.inr ⟨x, .send, ho, trivial, .send ((hw.memory.deleted ho).trans hf)⟩)
  | @asyncOffer x sys reported offers hp ho hk hnone ho' hq hb =>
    obtain rfl := Obj.async.inj (Option.some.inj (ho'.symm.trans hx'))
    rw [asyncView_eq hq hb]
    exact .inr (.inr ⟨x, .offer, ho, ⟨reported, offers, hp⟩, .offer hk hnone⟩)
  | @asyncDispatch x d sys rest ha ho hbatch ho' hq hb =>
    obtain rfl := Obj.async.inj (Option.some.inj (ho'.symm.trans hx'))
    rw [asyncView_eq hq hb]
    exact .inr (.inr ⟨x, .dispatch, ho, trivial, .dispatch (batched_pos hbatch)⟩)
  | tcpCall _ _ _ _ _ ho' | tcpTimeout _ _ _ _ _ ho' | tcpOffer _ _ _ _ ho'
  | tcpDispatch _ _ _ _ ho' | udpCall _ _ _ _ ho' | udpOffer _ _ _ _ ho' | udpDispatch _ _ _ ho' =>
    cases Option.some.inj (ho'.symm.trans hx')

/-- All async events of the loop satisfy `P`. -/
def AsyncInv (P : AsyncView → Prop) (s : IoLoop) : Prop :=
  ∀ i x, s.mem i = some (.async x) → P (s.asyncView i x)

theorem init_asyncInv (P : AsyncView → Prop) : init.AsyncInv P := by
  intro i x hx
  cases hx

/-- **The rule for async events**, as for TCP events. -/
theorem AsyncInv.step {P : AsyncView → Prop} {A : AsyncView → AsyncAct → Prop} (h : s.AsyncInv P)
    (hw : s.Wf) (hstep : s.step a = some s') (hnew : P ⟨.asyncNew, fun _ ↦ 0, fun _ ↦ 0⟩)
    (hP : ∀ v act v', AsyncStep v act v' → P v → A v act → P v')
    (hok : ∀ i x act, s.mem i = some (.async x) → s.doesAsync i act → A (s.asyncView i x) act) :
    s'.AsyncInv P := by
  intro j x' hx'
  rcases ((step_eq_some hstep).local hw j).asyncStep hw hx' with
    ⟨hx, hview⟩ | ⟨-, hview⟩ | ⟨x, act, hx, hdoes, hasync⟩
  · rw [hview]
    exact h j x' hx
  · rw [hview]
    exact hnew
  · exact hP _ _ _ hasync (h j x hx) (hok j x act hx hdoes)

end IoLoop

/-! ## Notifications on their way -/

/-- `async_sent` stands for a byte in the pipe or a completion in the batch, and the flags of
pending operations are clear. -/
structure AsyncView.Notified (v : AsyncView) : Prop where
  sent : v.a.pipeBytes + v.batched .read = v.a.asyncSent.toNat
  flags : v.a.reading = false ∧ v.a.writing = false
  queue : ∀ d, v.queued d = 0
  write : v.batched .write = 0

def AsyncAct.expected (v : AsyncView) : AsyncAct → Prop
  | .offer => 0 < v.a.pipeBytes
  | _ => True

theorem Async.nanoevAsyncStart_notified (x : Async) (op : ℕ) (sys : Sys) (fresh : Fresh) :
    (x.nanoevAsyncStart op sys fresh).1.pipeBytes = x.pipeBytes ∧
      (x.nanoevAsyncStart op sys fresh).1.asyncSent = x.asyncSent ∧
      (x.nanoevAsyncStart op sys fresh).1.reading = x.reading ∧
      (x.nanoevAsyncStart op sys fresh).1.writing = x.writing := by
  unfold nanoevAsyncStart
  split
  · exact ⟨rfl, rfl, rfl, rfl⟩
  · dsimp only
    split
    · exact ⟨rfl, rfl, rfl, rfl⟩
    · split
      · exact ⟨rfl, rfl, rfl, rfl⟩
      · exact ⟨rfl, rfl, rfl, rfl⟩
      · split <;> exact ⟨rfl, rfl, rfl, rfl⟩

/-- What a send does to a notification: it makes one, if there is none. -/
theorem Async.nanoevAsyncSend_cases (x : Async) (written : Bool) :
    (x.nanoevAsyncSend written).1 = x ∨
      x.asyncSent = false ∧
        (x.nanoevAsyncSend written).1 =
          { x with pipeBytes := x.pipeBytes + 1, asyncSent := true } := by
  unfold nanoevAsyncSend
  split
  · exact .inl rfl
  · next hsent =>
    split
    · exact .inl rfl
    · split
      · exact .inl rfl
      · exact .inr ⟨Bool.eq_false_of_not_eq_true hsent, rfl⟩

theorem Async.reactorCb_of_pos {x : Async} {sys : Sys} (hk : x.reactorKernel sys = true)
    (hpos : 0 < x.pipeBytes) :
    x.reactorCb sys = { x with pipeBytes := x.pipeBytes - 1, ctx := ⟨0, 1⟩ } := by
  unfold reactorKernel at hk
  unfold reactorCb
  split at hk
  · next n hio => rw [hio]
  · rw [decide_eq_true_eq] at hk
    omega

theorem AsyncStep.notified {v v' : AsyncView} {act : AsyncAct} (hstep : AsyncStep v act v')
    (h : v.Notified) (hact : act.expected v) : v'.Notified := by
  cases hstep with
  | @start op sys fresh hlive =>
    obtain ⟨hbytes, hsent, hreading, hwriting⟩ := v.a.nanoevAsyncStart_notified op sys fresh
    refine ⟨?_, ⟨hreading.trans h.flags.1, hwriting.trans h.flags.2⟩, h.queue, h.write⟩
    dsimp only
    rw [hbytes, hsent]
    exact h.sent
  | @send written hlive =>
    rcases v.a.nanoevAsyncSend_cases written with heq | ⟨hidle, heq⟩
    · rw [heq]
      exact h
    · rw [heq]
      refine ⟨?_, h.flags, h.queue, h.write⟩
      have hsent := h.sent
      rw [hidle, Bool.toNat_false] at hsent
      rw [Bool.toNat_true]
      dsimp only
      omega
  | @offer sys hk hnone =>
    -- the byte that is read becomes the completion
    have hpos : 0 < v.a.pipeBytes := hact
    rw [Async.reactorCb_of_pos hk hpos]
    refine ⟨?_, h.flags, h.queue, h.write⟩
    show v.a.pipeBytes - 1 + (v.batched .read + 1) = v.a.asyncSent.toNat
    rw [← h.sent]
    omega
  | @dispatch d hbatch =>
    -- there was at most one notification, and the delivery consumes it
    obtain rfl : d = .read := by
      cases d with
      | read => rfl
      | write => exact absurd h.write hbatch.ne'
    have hle := Bool.toNat_le v.a.asyncSent
    rw [← h.sent] at hle
    refine ⟨?_, ⟨rfl, h.flags.2⟩, h.queue, h.write⟩
    show v.a.pipeBytes + (v.batched .read - 1) = 0
    omega
  | free hlive | link => exact ⟨h.sent, h.flags, h.queue, h.write⟩
  | @poll q b hbatch hmoved =>
    have hq : ∀ d, q d = 0 ∧ b d = 0 := fun d ↦ Nat.add_eq_zero_iff.mp
      ((hmoved d).trans (h.queue d))
    refine ⟨?_, h.flags, fun d ↦ (hq d).1, (hq .write).2⟩
    have hsent := h.sent
    rw [hbatch .read] at hsent
    dsimp only
    rw [(hq .read).2]
    exact hsent

namespace IoLoop

variable {s s' : IoLoop} {a : Action}

/-- The pipe of an async event that is to be offered holds a byte. -/
def PipeReadable (d : Dir) (o : Obj) : Prop := ∀ x, o = .async x → d = .read ∧ 0 < x.pipeBytes

theorem pipeReadable_steady : Steady PipeReadable where
  send := by
    rintro d x written h x' hx'
    obtain rfl := Obj.async.inj hx'
    obtain ⟨hd, hpos⟩ := h x rfl
    refine ⟨hd, ?_⟩
    rcases x.nanoevAsyncSend_cases written with heq | ⟨-, heq⟩
    · rw [heq]
      exact hpos
    · rw [heq]
      exact Nat.succ_pos _
  tcp := by
    rintro d e t sys fresh t' completed effects - - - x hx
    cases hx
  udp := by
    rintro d e u sys - - x hx
    cases hx
  async := fun he h ↦ absurd (h _ rfl).1 he

/-- The async events of a loop: what their flags stand for. -/
structure Notified (s : IoLoop) : Prop where
  wf : s.Wf
  async : s.AsyncInv AsyncView.Notified
  offered : s.Offered PipeReadable

theorem init_notified : init.Notified := ⟨init_wf, init_asyncInv _, nofun⟩

theorem Notified.step (h : s.Notified) (hstep : s.step a = some s') : s'.Notified where
  wf := (step_eq_some hstep).wf h.wf
  async := by
    refine h.async.step (A := fun v act ↦ act.expected v) h.wf hstep
      ⟨rfl, ⟨rfl, rfl⟩, fun _ ↦ rfl, rfl⟩ (fun v act v' hasync hv hact ↦ hasync.notified hv hact) ?_
    intro i x act hx hdoes
    cases act with
    | offer =>
      obtain ⟨reported, offers, hp⟩ := hdoes
      exact (h.offered reported _ hp (i, .read) List.mem_cons_self _ hx x rfl).2
    | _ => trivial
  offered := by
    refine (step_eq_some hstep).offered h.wf h.offered pipeReadable_steady ?_
    rintro i r o d rfl ho hr hallowed he x rfl
    rw [Report.allowed, Bool.and_eq_true, decide_eq_true_eq, decide_eq_true_eq] at hallowed
    obtain ⟨rfl, hpos⟩ := hallowed
    simp only [Report.offers, List.mem_singleton, Prod.mk.injEq, true_and] at he
    exact ⟨he, hpos⟩

theorem notified_of_reachable {ok : IoLoop → Action → Prop} (h : Reachable step ok init s) :
    s.Notified :=
  h.invariant init_notified fun _ _ _ hs _ hstep ↦ hs.step hstep

end IoLoop

end Nanoev
