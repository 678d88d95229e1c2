import Nanoev.Memory.Queue
import Nanoev.Dns.Stage

/-!
# The invariant of the DNS system

Every event is in order, every thread of the pool works on an event that is at its stage, the links
of the events represent a queue of events at the stage `queued`, every owner of a block holds a
block that is allocated to it, and the records say what they should.

The second part has the rules that the operations share: what a step that changes one event leaves
as it is, and what becomes of the owners when a block is allocated, released or passed on.
-/

namespace Nanoev

open Transition Memory

namespace DnsSystem

def held (s : DnsSystem) : BlockOwner → Option ℕ
  | .host d => (s.events d).stage.request.map DnsRequest.host
  | .result w => (s.workers w).addrs
  | .addrs d => (s.events d).dns.bind Dns.addrs
  | .delivered d => (s.events d).delivery.addrs

/-- A thread of the pool works on an event that is at its stage. -/
def PcOk (s : DnsSystem) (w : ℕ) : WorkerPc → Prop
  | .waiting | .exited => True
  | .fetched d => ∃ q, (s.events d).stage = .resolving w q
  | .resolving d host family port => ∃ q, (s.events d).stage = .resolving w q ∧
      host = some q.host ∧ family = q.family ∧ port = q.port
  | .publishing d a => ∃ q, (s.events d).stage = .resolving w q ∧
      s.answers q.host = some (q.family, q.port, a)
  | .sending d | .inSend d => ∃ q, (s.events d).stage = .published w q

/-- So does the thread `w`. -/
def WorkerOk (s : DnsSystem) (w : ℕ) : Prop := s.PcOk w (s.workers w)

/-- The answers and the requests that an event refers to are on record. -/
structure EventRecord (s : DnsSystem) (e : DnsEvent) : Prop where
  accepted : ∀ q, e.stage.accepted = true → e.stage.request = some q → q ∈ s.accepted
  published : ∀ q o, e.stage.completed = true → e.stage.request = some q → e.dns = some o →
    s.answers q.host = some (q.family, q.port, o.answer)
  taken : ∀ q t, e.stage = .delivering q → e.delivery = .taken t →
    s.answers q.host = some (q.family, q.port, t.answer)

def Done (s : DnsSystem) (q : DnsRequest) : Prop :=
  s.blocks q.host = none ∧
    (some q.host ∈ s.calls.map DnsCall.host ∨ (s.events q.event).freed = true)

/-- The invocation of a callback has a request, and the answer to it. -/
def Answered (s : DnsSystem) (c : DnsCall) : Prop :=
  ∃ q ∈ s.accepted, q.event = c.event ∧ c.host = some q.host ∧ q.callback = c.callback ∧
    s.answers q.host = some (q.family, q.port, c.answer)

structure EventsInv (s : DnsSystem) : Prop where
  ok : ∀ d, (s.events d).Ok d
  gone : ∀ d, d < s.nextEvent → (s.events d).dns = none → (s.events d).freed = true
  unborn : ∀ d, s.nextEvent ≤ d → s.events d = .none

def QueueInv (s : DnsSystem) : Prop :=
  ∃ l, IsQueue (fun d ↦ (s.events d).next) s.pool.head s.pool.tail l ∧
    ∀ d ∈ l, ∃ q, (s.events d).stage = .queued q

/-- What is held is allocated, and what is allocated is held. -/
structure BlocksInv (s : DnsSystem) : Prop where
  held_iff : ∀ x b, s.held x = some b ↔ s.blocks b = some x
  fresh : ∀ b, s.nextBlock ≤ b → s.blocks b = none

structure RecordInv (s : DnsSystem) : Prop where
  event : ∀ d, s.EventRecord (s.events d)
  accounted : ∀ q ∈ s.accepted,
    ((s.events q.event).stage.accepted = true ∧ (s.events q.event).stage.request = some q) ∨
      s.Done q
  born : ∀ q ∈ s.accepted, q.host < s.nextBlock
  nodup : (s.accepted.map DnsRequest.host).Nodup
  calls : ∀ c ∈ s.calls, c.freed = false ∧ s.Answered c
  dead : ∀ c ∈ s.calls, ∀ b, c.host = some b → s.blocks b = none
  calls_nodup : (s.calls.map DnsCall.host).Nodup
  destroyed : ∀ d, d ∈ s.destroyed ↔ d < s.nextEvent ∧ (s.events d).dns = none
  destroyed_nodup : s.destroyed.Nodup
  closed : s.closed = s.destroyed.flatMap fun d ↦ [2 * d, 2 * d + 1]
  faults : s.faults = []

structure Inv (s : DnsSystem) : Prop where
  events : s.EventsInv
  workers : ∀ w, s.WorkerOk w
  queue : s.QueueInv
  blocks : s.BlocksInv
  record : s.RecordInv


/-! ## Frames

A step of the thread of a loop (`LoopStep`) changes one event and what belongs to it. The threads of
the pool depend on the events that are with them, the queue on the events in it, and neither kind is
with the loop, so only the event and the blocks are left to look at. A block has one owner: it is
allocated to an owner that holds nothing, released by its owner, or passed on to an owner that holds
nothing. -/

section Frames

variable {s t : DnsSystem} {d w b : ℕ} {e : DnsEvent}

theorem EventsInv.lt_of_ne (h : s.EventsInv) (hne : s.events d ≠ .none) : d < s.nextEvent := by
  by_contra hlt
  exact hne (h.unborn d (Nat.le_of_not_lt hlt))

theorem EventsInv.update (h : s.EventsInv) (hev : t.events = Function.update s.events d e)
    (hn : t.nextEvent = s.nextEvent) (hd : d < s.nextEvent) (hok : e.Ok d)
    (hgone : e.dns = none → e.freed = true) : t.EventsInv := by
  refine ⟨?_, ?_, ?_⟩
  · intro k
    rw [hev]
    rcases eq_or_ne k d with rfl | hk
    · rwa [Function.update_self]
    · rw [Function.update_of_ne hk]
      exact h.ok k
  · intro k hk
    rw [hev]
    rcases eq_or_ne k d with rfl | hkd
    · rwa [Function.update_self]
    · rw [Function.update_of_ne hkd]
      exact h.gone k (hn ▸ hk)
  · intro k hk
    rw [hn] at hk
    rw [hev, Function.update_of_ne (by omega)]
    exact h.unborn k hk

theorem WorkerOk.congr (h : s.WorkerOk w) (hw : t.workers w = s.workers w)
    (hst : ∀ d q, (s.events d).stage = .resolving w q ∨ (s.events d).stage = .published w q →
      (t.events d).stage = (s.events d).stage)
    (ha : ∀ d q, (s.events d).stage = .resolving w q → t.answers q.host = s.answers q.host) :
    t.WorkerOk w := by
  rw [WorkerOk] at h ⊢
  rw [hw]
  cases hpc : s.workers w with
  | waiting | exited => exact trivial
  | fetched d =>
    rw [hpc] at h
    obtain ⟨q, hq⟩ := h
    exact ⟨q, (hst d q (Or.inl hq)).trans hq⟩
  | resolving d host family port =>
    rw [hpc] at h
    obtain ⟨q, hq, hrest⟩ := h
    exact ⟨q, (hst d q (Or.inl hq)).trans hq, hrest⟩
  | publishing d a =>
    rw [hpc] at h
    obtain ⟨q, hq, hans⟩ := h
    exact ⟨q, (hst d q (Or.inl hq)).trans hq, (ha d q hq).trans hans⟩
  | sending d | inSend d =>
    rw [hpc] at h
    obtain ⟨q, hq⟩ := h
    exact ⟨q, (hst d q (Or.inr hq)).trans hq⟩

theorem QueueInv.congr (h : s.QueueInv) (hhead : t.pool.head = s.pool.head)
    (htail : t.pool.tail = s.pool.tail)
    (hst : ∀ d q, (s.events d).stage = .queued q →
      (t.events d).stage = .queued q ∧ (t.events d).next = (s.events d).next) : t.QueueInv := by
  obtain ⟨l, hl, hqueued⟩ := h
  refine ⟨l, ?_, ?_⟩
  · rw [hhead, htail]
    refine hl.congr fun k hk ↦ ?_
    obtain ⟨q, hq⟩ := hqueued k hk
    exact (hst k q hq).2
  · intro k hk
    obtain ⟨q, hq⟩ := hqueued k hk
    exact ⟨q, (hst k q hq).1⟩

theorem BlocksInv.congr (h : s.BlocksInv) (hb : t.blocks = s.blocks)
    (hn : t.nextBlock = s.nextBlock) (hheld : ∀ x, t.held x = s.held x) : t.BlocksInv := by
  refine ⟨fun x b ↦ ?_, fun b hlt ↦ ?_⟩
  · rw [hb, hheld]
    exact h.held_iff x b
  · rw [hb]
    exact h.fresh b (hn ▸ hlt)

theorem BlocksInv.ne_none {x : BlockOwner} (h : s.BlocksInv) (hx : s.held x = some b) :
    s.blocks b ≠ none := by
  rw [(h.held_iff x b).mp hx]
  exact Option.some_ne_none x

theorem BlocksInv.lt_of_held {x : BlockOwner} (h : s.BlocksInv) (hx : s.held x = some b) :
    b < s.nextBlock := by
  by_contra hlt
  exact h.ne_none hx (h.fresh b (Nat.le_of_not_lt hlt))

theorem BlocksInv.held_ne {x y : BlockOwner} (h : s.BlocksInv) (hx : s.held x = some b)
    (hxy : y ≠ x) : s.held y ≠ some b := by
  intro hy
  have hb := (h.held_iff x b).mp hx
  rw [(h.held_iff y b).mp hy] at hb
  exact hxy (Option.some.inj hb)

theorem BlocksInv.alloc {x : BlockOwner} (h : s.BlocksInv)
    (ht : t.blocks = Function.update s.blocks s.nextBlock (some x))
    (hn : t.nextBlock = s.nextBlock + 1) (hx : s.held x = none)
    (hx' : t.held x = some s.nextBlock) (hheld : ∀ y, y ≠ x → t.held y = s.held y) :
    t.BlocksInv := by
  refine ⟨?_, ?_⟩
  · intro y b
    rw [ht]
    rcases eq_or_ne b s.nextBlock with rfl | hb
    · rw [Function.update_self, Option.some.injEq]
      constructor
      · intro hy
        by_contra hxy
        rw [hheld y (Ne.symm hxy)] at hy
        exact h.ne_none hy (h.fresh _ le_rfl)
      · rintro rfl
        exact hx'
    · rw [Function.update_of_ne hb]
      rcases eq_or_ne y x with rfl | hy
      · rw [hx', ← h.held_iff, hx]
        simp [Ne.symm hb]
      · rw [hheld y hy]
        exact h.held_iff y b
  · intro b hb
    rw [ht, Function.update_of_ne (by omega)]
    exact h.fresh b (by omega)

def released (blocks : ℕ → Option BlockOwner) : Option ℕ → ℕ → Option BlockOwner
  | none => blocks
  | some b => Function.update blocks b none

theorem released_eq_none {blocks : ℕ → Option BlockOwner} {b : Option ℕ} {c : ℕ}
    (hc : blocks c = none) : released blocks b c = none := by
  cases b with
  | none => exact hc
  | some b =>
    rcases eq_or_ne c b with rfl | hne
    · exact Function.update_self ..
    · exact (Function.update_of_ne hne ..).trans hc

theorem BlocksInv.release {x : BlockOwner} (h : s.BlocksInv)
    (ht : t.blocks = released s.blocks (s.held x)) (hn : t.nextBlock = s.nextBlock)
    (hx : t.held x = none) (hheld : ∀ y, y ≠ x → t.held y = s.held y) : t.BlocksInv := by
  refine ⟨?_, fun b hb ↦ ?_⟩
  · intro y b
    rw [ht]
    cases hb : s.held x with
    | none =>
      have hy : t.held y = s.held y := by
        rcases eq_or_ne y x with rfl | hy
        · rw [hx, hb]
        · exact hheld y hy
      rw [hy]
      exact h.held_iff y b
    | some c =>
      rcases eq_or_ne b c with rfl | hbc
      · have hnone : t.held y ≠ some b := by
          rcases eq_or_ne y x with rfl | hy
          · rw [hx]
            exact nofun
          · rw [hheld y hy]
            exact h.held_ne hb hy
        simp [released, hnone]
      · rw [released, Function.update_of_ne hbc, ← h.held_iff]
        rcases eq_or_ne y x with rfl | hy
        · simp [hx, hb, Ne.symm hbc]
        · rw [hheld y hy]
  · rw [ht]
    exact released_eq_none (h.fresh b (hn ▸ hb))

def given (blocks : ℕ → Option BlockOwner) (y : BlockOwner) : Option ℕ → ℕ → Option BlockOwner
  | none => blocks
  | some b => Function.update blocks b (some y)

theorem BlocksInv.given_eq_none {x y : BlockOwner} (h : s.BlocksInv) (hb : s.blocks b = none) :
    given s.blocks y (s.held x) b = none := by
  cases hx : s.held x with
  | none => exact hb
  | some c =>
    refine (Function.update_of_ne ?_ ..).trans hb
    rintro rfl
    exact h.ne_none hx hb

theorem BlocksInv.give {x y : BlockOwner} (h : s.BlocksInv) (hxy : x ≠ y) (hy : s.held y = none)
    (ht : t.blocks = given s.blocks y (s.held x)) (hn : t.nextBlock = s.nextBlock)
    (hx' : t.held x = none) (hy' : t.held y = s.held x)
    (hheld : ∀ z, z ≠ x → z ≠ y → t.held z = s.held z) : t.BlocksInv := by
  refine ⟨?_, fun b hb ↦ ?_⟩
  · intro z b
    rw [ht]
    cases hb : s.held x with
    | none =>
      have hz : t.held z = s.held z := by
        rcases eq_or_ne z x with rfl | hzx
        · rw [hx', hb]
        · rcases eq_or_ne z y with rfl | hzy
          · rw [hy', hb, hy]
          · exact hheld z hzx hzy
      rw [hz]
      exact h.held_iff z b
    | some c =>
      rcases eq_or_ne b c with rfl | hbc
      · rw [given, Function.update_self, Option.some.injEq]
        constructor
        · intro hz
          by_contra hzy
          rcases eq_or_ne z x with rfl | hzx
          · rw [hx'] at hz
            cases hz
          · rw [hheld z hzx (Ne.symm hzy)] at hz
            exact h.held_ne hb hzx hz
        · rintro rfl
          exact hy'.trans hb
      · rw [given, Function.update_of_ne hbc, ← h.held_iff]
        rcases eq_or_ne z x with rfl | hzx
        · simp [hx', hb, Ne.symm hbc]
        · rcases eq_or_ne z y with rfl | hzy
          · simp [hy', hb, hy, Ne.symm hbc]
          · rw [hheld z hzx hzy]
  · rw [ht]
    exact h.given_eq_none (h.fresh b (hn ▸ hb))

theorem memFree_eq {b : Option ℕ} (hb : ∀ c, b = some c → s.blocks c ≠ none) :
    s.memFree b = { s with blocks := released s.blocks b } := by
  cases b with
  | none => rfl
  | some c => exact if_neg (hb c rfl)

theorem give_eq {b : Option ℕ} {y : BlockOwner} (hb : ∀ c, b = some c → s.blocks c ≠ none) :
    s.give b y = { s with blocks := given s.blocks y b } := by
  cases b with
  | none => rfl
  | some c =>
    obtain ⟨x, hx⟩ := Option.ne_none_iff_exists'.mp (hb c rfl)
    simp [DnsSystem.give, given, hx]

theorem held_update (hev : t.events = Function.update s.events d e) (hw : t.workers = s.workers)
    (x : BlockOwner) :
    (x = .host d ∧ t.held x = e.stage.request.map DnsRequest.host) ∨
      (x = .addrs d ∧ t.held x = e.dns.bind Dns.addrs) ∨
      (x = .delivered d ∧ t.held x = e.delivery.addrs) ∨
      (x ≠ .host d ∧ x ≠ .addrs d ∧ x ≠ .delivered d ∧ t.held x = s.held x) := by
  cases x with
  | host k =>
    rcases eq_or_ne k d with rfl | hk
    · left
      simp [held, hev]
    · right; right; right
      simp [held, hev, hk]
  | addrs k =>
    rcases eq_or_ne k d with rfl | hk
    · right; left
      simp [held, hev]
    · right; right; right
      simp [held, hev, hk]
  | delivered k =>
    rcases eq_or_ne k d with rfl | hk
    · right; right; left
      simp [held, hev]
    · right; right; right
      simp [held, hev, hk]
  | result k =>
    right; right; right
    simp [held, hw]

/-- A step changes one event, and neither the requests nor the answers on record. -/
structure EventStep (s t : DnsSystem) (d : ℕ) (e : DnsEvent) : Prop where
  events : t.events = Function.update s.events d e
  nextEvent : t.nextEvent = s.nextEvent
  accepted : t.accepted = s.accepted
  answers : t.answers = s.answers
  faults : t.faults = s.faults

structure LoopStep (s t : DnsSystem) (d : ℕ) (e : DnsEvent) : Prop extends EventStep s t d e where
  workers : t.workers = s.workers
  head : t.pool.head = s.pool.head
  tail : t.pool.tail = s.pool.tail

theorem LoopStep.inv (l : LoopStep s t d e) (h : s.Inv) (hd : d < s.nextEvent) (hok : e.Ok d)
    (hgone : e.dns = none → e.freed = true)
    (hpool : (s.events d).stage.pool = true →
      e.stage = (s.events d).stage ∧ e.next = (s.events d).next)
    (hblocks : t.BlocksInv) (hrecord : t.RecordInv) : t.Inv := by
  have hframe : ∀ k, (s.events k).stage.pool = true →
      (t.events k).stage = (s.events k).stage ∧ (t.events k).next = (s.events k).next := by
    intro k hk
    rw [l.events]
    rcases eq_or_ne k d with rfl | hkd
    · rw [Function.update_self]
      exact hpool hk
    · rw [Function.update_of_ne hkd]
      exact ⟨rfl, rfl⟩
  refine ⟨h.events.update l.events l.nextEvent hd hok hgone, ?_, ?_, hblocks, hrecord⟩
  · intro w
    refine (h.workers w).congr (congrFun l.workers w) ?_ (fun _ _ _ ↦ by rw [l.answers])
    rintro k q (hq | hq)
    · exact (hframe k (by rw [hq]; rfl)).1
    · exact (hframe k (by rw [hq]; rfl)).1
  · refine h.queue.congr l.head l.tail fun k q hq ↦ ?_
    obtain ⟨hst, hnext⟩ := hframe k (by rw [hq]; rfl)
    exact ⟨hst.trans hq, hnext⟩

/-- A step keeps the invariant and has nothing to do with the queue and with the threads that start
and stop the pool. -/
structure Keeps (s t : DnsSystem) : Prop where
  inv : t.Inv
  pool : t.pool = s.pool
  term : t.term = s.term
  nextWorker : t.nextWorker = s.nextWorker
  accepted : t.accepted = s.accepted
  dequeued : t.dequeued = s.dequeued
  workers : ∀ w, t.workers w = s.workers w ∨ (s.workers w ≠ .waiting ∧ t.workers w ≠ .exited)
  undoing : ∀ k, (t.events k).call.undoing = true → (t.events k).call = (s.events k).call
  queued : ∀ k q, (s.events k).stage = .queued q →
    (t.events k).stage = .queued q ∧ (t.events k).next = (s.events k).next

structure Calm (s t : DnsSystem) (d : ℕ) (e : DnsEvent) : Prop where
  pool : t.pool = s.pool
  term : t.term = s.term
  nextWorker : t.nextWorker = s.nextWorker
  dequeued : t.dequeued = s.dequeued
  undoing : e.call.undoing = true → e.call = (s.events d).call

theorem LoopStep.keeps (l : LoopStep s t d e) (c : Calm s t d e) (h : s.Inv) (hd : d < s.nextEvent)
    (hok : e.Ok d) (hgone : e.dns = none → e.freed = true)
    (hpool : (s.events d).stage.pool = true →
      e.stage = (s.events d).stage ∧ e.next = (s.events d).next)
    (hblocks : t.BlocksInv) (hrecord : t.RecordInv) : s.Keeps t where
  inv := l.inv h hd hok hgone hpool hblocks hrecord
  pool := c.pool
  term := c.term
  nextWorker := c.nextWorker
  accepted := l.accepted
  dequeued := c.dequeued
  workers := fun w ↦ Or.inl (congrFun l.workers w)
  undoing := by
    intro k
    rw [l.events]
    rcases eq_or_ne k d with rfl | hk
    · rw [Function.update_self]
      exact c.undoing
    · rw [Function.update_of_ne hk]
      exact fun _ ↦ rfl
  queued := by
    intro k q hq
    rw [l.events]
    rcases eq_or_ne k d with rfl | hk
    · rw [Function.update_self]
      obtain ⟨hst, hnext⟩ := hpool (by rw [hq]; rfl)
      exact ⟨hst.trans hq, hnext⟩
    · rw [Function.update_of_ne hk]
      exact ⟨hq, rfl⟩

/-- An owner keeps what it holds, unless the event makes it change. -/
theorem LoopStep.held_eq (l : LoopStep s t d e) (x : BlockOwner)
    (hhost : x = .host d → e.stage.request = (s.events d).stage.request)
    (haddrs : x = .addrs d → e.dns.bind Dns.addrs = (s.events d).dns.bind Dns.addrs)
    (hdel : x = .delivered d → e.delivery.addrs = (s.events d).delivery.addrs) :
    t.held x = s.held x := by
  rcases held_update l.events l.workers x with ⟨rfl, hx⟩ | ⟨rfl, hx⟩ | ⟨rfl, hx⟩ | ⟨-, -, -, hx⟩
  · rw [hx, hhost rfl]
    rfl
  · exact hx.trans (haddrs rfl)
  · exact hx.trans (hdel rfl)
  · exact hx

theorem LoopStep.held_host (l : LoopStep s t d e) :
    t.held (.host d) = e.stage.request.map DnsRequest.host := by
  rw [held, l.events, Function.update_self]

theorem LoopStep.held_addrs (l : LoopStep s t d e) :
    t.held (.addrs d) = e.dns.bind Dns.addrs := by
  rw [held, l.events, Function.update_self]

theorem LoopStep.held_delivered (l : LoopStep s t d e) :
    t.held (.delivered d) = e.delivery.addrs := by
  rw [held, l.events, Function.update_self]

theorem EventRecord.of_not_accepted (hst : e.stage.accepted = false) : s.EventRecord e := by
  refine ⟨?_, ?_, ?_⟩
  · intro q hacc
    exact absurd (hst.symm.trans hacc) Bool.false_ne_true
  · intro q o hcompleted
    revert hst hcompleted
    cases e.stage <;> simp [Stage.accepted, Stage.completed]
  · intro q x hq
    rw [hq] at hst
    cases hst

theorem EventRecord.accepted_of_stage {st : Stage} (h : s.EventRecord e)
    (hacc : e.stage.accepted = true) (hreq : st.request = e.stage.request) :
    ∀ q, st.accepted = true → st.request = some q → q ∈ s.accepted :=
  fun q _ hq ↦ h.accepted q hacc (hreq.symm.trans hq)

theorem EventRecord.mono (h : s.EventRecord e) (hsub : s.accepted ⊆ t.accepted)
    (hanswers : ∀ q, e.stage.request = some q →
      e.stage.completed = true ∨ e.stage = .delivering q → t.answers q.host = s.answers q.host) :
    t.EventRecord e where
  accepted q hacc hq := hsub (h.accepted q hacc hq)
  published q o hcompleted hq ho := by
    rw [hanswers q hq (.inl hcompleted)]
    exact h.published q o hcompleted hq ho
  taken q x hst hx := by
    rw [hanswers q (by rw [hst]; rfl) (.inr hst)]
    exact h.taken q x hst hx

theorem Answered.mono {c : DnsCall} (h : s.Answered c) (hsub : s.accepted ⊆ t.accepted)
    (hanswers : ∀ b, c.host = some b → t.answers b = s.answers b) : t.Answered c := by
  obtain ⟨q, hq, hevent, hhost, hcallback, hanswer⟩ := h
  refine ⟨q, hsub hq, hevent, hhost, hcallback, ?_⟩
  rw [hanswers _ hhost]
  exact hanswer

/-- The host name of a call is that of an accepted request, so no later block has its number. -/
theorem RecordInv.calls_dead (h : s.RecordInv)
    (hdead : ∀ b, b < s.nextBlock → s.blocks b = none → t.blocks b = none) :
    ∀ c ∈ s.calls, ∀ b, c.host = some b → t.blocks b = none := by
  intro c hc b hb
  obtain ⟨-, q, hq, -, hhost, -⟩ := h.calls c hc
  obtain rfl : b = q.host := Option.some.inj (hb.symm.trans hhost)
  exact hdead _ (h.born q hq) (h.dead c hc _ hb)

/-- The records after a step that invokes no callback and destroys no object. -/
theorem RecordInv.of_same_calls (h : s.RecordInv) (hcalls : t.calls = s.calls)
    (hdestroyed : t.destroyed = s.destroyed) (hclosed : t.closed = s.closed)
    (hfaults : t.faults = s.faults) (hsub : s.accepted ⊆ t.accepted)
    (hanswers : ∀ b, s.blocks b = none → t.answers b = s.answers b)
    (hdead : ∀ b, b < s.nextBlock → s.blocks b = none → t.blocks b = none)
    (hgone : ∀ k, k < t.nextEvent ∧ (t.events k).dns = none ↔
      k < s.nextEvent ∧ (s.events k).dns = none)
    (hevent : ∀ k, t.EventRecord (t.events k))
    (haccounted : ∀ q ∈ t.accepted, ((t.events q.event).stage.accepted = true ∧
      (t.events q.event).stage.request = some q) ∨ t.Done q)
    (hborn : ∀ q ∈ t.accepted, q.host < t.nextBlock)
    (hnodup : (t.accepted.map DnsRequest.host).Nodup) : t.RecordInv where
  event := hevent
  accounted := haccounted
  born := hborn
  nodup := hnodup
  calls := by
    rw [hcalls]
    intro c hc
    obtain ⟨hfreed, hanswered⟩ := h.calls c hc
    exact ⟨hfreed, hanswered.mono hsub fun b hb ↦ hanswers b (h.dead c hc b hb)⟩
  dead := by
    rw [hcalls]
    exact h.calls_dead hdead
  calls_nodup := by
    rw [hcalls]
    exact h.calls_nodup
  destroyed := by
    intro k
    rw [hdestroyed, h.destroyed]
    exact (hgone k).symm
  destroyed_nodup := by
    rw [hdestroyed]
    exact h.destroyed_nodup
  closed := by
    rw [hclosed, hdestroyed]
    exact h.closed
  faults := hfaults.trans h.faults

/-- The call of a callback is recorded: it answers a request whose host name is released by the
step. -/
structure NewCall (s t : DnsSystem) (c : DnsCall) : Prop where
  freed : c.freed = false
  answered : s.Answered c
  host : ∃ b, c.host = some b ∧ s.blocks b ≠ none ∧ t.blocks b = none

theorem NewCall.nodup {c : DnsCall} (hnew : NewCall s t c) (h : s.RecordInv) :
    ((s.calls ++ [c]).map DnsCall.host).Nodup := by
  rw [List.map_append, List.nodup_append]
  refine ⟨h.calls_nodup, List.nodup_singleton _, ?_⟩
  -- the host names of earlier calls have been released before, that of the new one has not
  rintro x hx y hy rfl
  obtain ⟨c', hc', rfl⟩ := List.mem_map.mp hx
  obtain ⟨b, hb, hlive, -⟩ := hnew.host
  exact hlive (h.dead c' hc' b ((List.mem_singleton.mp hy).trans hb))

theorem NewCall.dead {c : DnsCall} (hnew : NewCall s t c) {b : ℕ} (hb : c.host = some b) :
    t.blocks b = none := by
  obtain ⟨b', hb', -, hdead⟩ := hnew.host
  obtain rfl := Option.some.inj (hb.symm.trans hb')
  exact hdead

namespace EventStep

theorem events_self (l : EventStep s t d e) : t.events d = e := by
  rw [l.events, Function.update_self]

theorem events_of_ne (l : EventStep s t d e) {k : ℕ} (hk : k ≠ d) : t.events k = s.events k := by
  rw [l.events, Function.update_of_ne hk]

/-- The record of the events that are destroyed, if the step destroys the object. -/
theorem destroyed_record (l : EventStep s t d e) (h : s.RecordInv)
    (hdestroyed : t.destroyed = s.destroyed ++ [d]) (hdns : e.dns = none) (hd : d < s.nextEvent)
    (k : ℕ) : k ∈ t.destroyed ↔ k < t.nextEvent ∧ (t.events k).dns = none := by
  rw [hdestroyed, l.nextEvent, List.mem_append, List.mem_singleton, h.destroyed]
  rcases eq_or_ne k d with rfl | hk
  · simp [l.events_self, hdns, hd]
  · simp [l.events_of_ne hk, hk]

theorem record (l : EventStep s t d e) (h : s.RecordInv)
    (hcalls : t.calls = s.calls ∨ ∃ c, t.calls = s.calls ++ [c] ∧ NewCall s t c)
    (hdestroyed : (t.destroyed = s.destroyed ∧ t.closed = s.closed ∧
        (e.dns = none ↔ (s.events d).dns = none)) ∨
      (t.destroyed = s.destroyed ++ [d] ∧ t.closed = s.closed ++ [2 * d, 2 * d + 1] ∧
        (s.events d).dns ≠ none ∧ e.dns = none ∧ d < s.nextEvent))
    (hn : s.nextBlock ≤ t.nextBlock)
    (hdead : ∀ b, b < s.nextBlock → s.blocks b = none → t.blocks b = none)
    (hevent : s.EventRecord e)
    (hst : ∀ q, (s.events d).stage.accepted = true → (s.events d).stage.request = some q →
      (e.stage.accepted = true ∧ e.stage.request = some q) ∨ t.Done q)
    (hfreed : (s.events d).freed = true → e.freed = true) : t.RecordInv := by
  have hfreed' : ∀ k, (s.events k).freed = true → (t.events k).freed = true := by
    intro k hk
    rcases eq_or_ne k d with rfl | hkd
    · rw [l.events_self]
      exact hfreed hk
    · rwa [l.events_of_ne hkd]
  have hsub : s.calls ⊆ t.calls := by
    obtain hc | ⟨c, hc, -⟩ := hcalls
    · exact hc ▸ List.Subset.refl _
    · exact hc ▸ List.subset_append_left _ _
  have hdead' := h.calls_dead hdead
  have hanswered : ∀ c, s.Answered c → t.Answered c := fun c hc ↦
    hc.mono (l.accepted ▸ List.Subset.refl _) fun b _ ↦ by rw [l.answers]
  refine ⟨?_, ?_, ?_, ?_, ?_, ?_, ?_, ?_, ?_, ?_, l.faults.trans h.faults⟩
  · intro k
    have hk : s.EventRecord (t.events k) := by
      rcases eq_or_ne k d with rfl | hkd
      · rwa [l.events_self]
      · rw [l.events_of_ne hkd]
        exact h.event k
    exact hk.mono (l.accepted ▸ List.Subset.refl _) fun q _ _ ↦ by rw [l.answers]
  · rw [l.accepted]
    intro q hq
    rcases h.accounted q hq with ⟨hacc, hreq⟩ | ⟨hblock, hdone⟩
    · rcases eq_or_ne q.event d with hk | hkd
      · rw [hk] at hacc hreq ⊢
        rw [l.events_self]
        exact hst q hacc hreq
      · rw [l.events_of_ne hkd]
        exact Or.inl ⟨hacc, hreq⟩
    · refine Or.inr ⟨hdead _ (h.born q hq) hblock, hdone.imp (fun hc ↦ ?_) (hfreed' q.event)⟩
      exact List.map_subset _ hsub hc
  · rw [l.accepted]
    exact fun q hq ↦ (h.born q hq).trans_le hn
  · rw [l.accepted]
    exact h.nodup
  · intro c hc
    obtain hcs | ⟨c', hcs, hnew⟩ := hcalls
    · rw [hcs] at hc
      exact ⟨(h.calls c hc).1, hanswered c (h.calls c hc).2⟩
    · rw [hcs, List.mem_append, List.mem_singleton] at hc
      obtain hc | rfl := hc
      · exact ⟨(h.calls c hc).1, hanswered c (h.calls c hc).2⟩
      · exact ⟨hnew.freed, hanswered c hnew.answered⟩
  · intro c hc b hb
    obtain hcs | ⟨c', hcs, hnew⟩ := hcalls
    · exact hdead' c (hcs ▸ hc) b hb
    · rw [hcs, List.mem_append, List.mem_singleton] at hc
      obtain hc | rfl := hc
      · exact hdead' c hc b hb
      · exact hnew.dead hb
  · obtain hcs | ⟨c', hcs, hnew⟩ := hcalls
    · rw [hcs]
      exact h.calls_nodup
    · rw [hcs]
      exact hnew.nodup h
  · obtain ⟨hds, -, hiff⟩ | ⟨hds, -, -, hdns, hlt⟩ := hdestroyed
    · intro k
      rw [hds, l.nextEvent, h.destroyed]
      rcases eq_or_ne k d with rfl | hkd
      · rw [l.events_self, hiff]
      · rw [l.events_of_ne hkd]
    · exact l.destroyed_record h hds hdns hlt
  · obtain ⟨hds, -⟩ | ⟨hds, -, hlive, -⟩ := hdestroyed
    · rw [hds]
      exact h.destroyed_nodup
    · -- an object that is destroyed has not been destroyed before
      rw [hds, List.nodup_append]
      refine ⟨h.destroyed_nodup, List.nodup_singleton _, ?_⟩
      rintro x hx y hy rfl
      obtain rfl := List.mem_singleton.mp hy
      exact hlive ((h.destroyed x).mp hx).2
  · obtain ⟨hds, hclosed, -⟩ | ⟨hds, hclosed, -⟩ := hdestroyed
    · rw [hds, hclosed]
      exact h.closed
    · rw [hds, hclosed, h.closed, List.flatMap_append]
      rfl

end EventStep

end Frames

end DnsSystem

end Nanoev
