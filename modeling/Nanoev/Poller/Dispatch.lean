import Mathlib.Data.List.Nodup
import Nanoev.Poller.Epoll
import Nanoev.Transition.Run

/-!
# Which directions a poll offers

`epoll_wait` reports readiness as bits: `EPOLLIN` and `EPOLLOUT` for the directions, `EPOLLERR` and
`EPOLLHUP` for both. `epoll_poller_poll` tests the bits of an entry in a row of `else if`s, so it
offers a direction for the first bit that is set, and both directions only for an entry with neither
`EPOLLIN` nor `EPOLLOUT`. An entry is served completely when no bit that comes later concerns a
direction of interest (`EpollBits.separate`). Otherwise the direction is skipped, and is skipped
again in the next poll as long as the earlier bit stays set.

`directions` are the directions that are offered for an entry, which `Io.Loop` takes as its
`Report`.
-/

namespace Nanoev

open Transition

namespace EpollBits

def reports (b : EpollBits) : Dir → Bool
  | .read => b.epollIn || b.epollErr || b.epollHup
  | .write => b.epollOut || b.epollErr || b.epollHup

/-- The directions that are offered for an entry with these bits. -/
def directions (b : EpollBits) (m : Mask) : List Dir :=
  if b.epollIn then [.read]
  else if b.epollOut then [.write]
  else if b.epollErr || b.epollHup then
    (if m.read then [.read] else []) ++ if m.write then [.write] else []
  else []

/-- The first bit that is tested is the only one that concerns a direction of interest. -/
def separate (b : EpollBits) (m : Mask) : Bool :=
  !(b.epollIn && (b.epollOut || b.epollErr || b.epollHup) && m.write) &&
    !(!b.epollIn && b.epollOut && (b.epollErr || b.epollHup) && m.read)

theorem separate_iff {b : EpollBits} {m : Mask} :
    b.separate m = true ↔ ∀ d, b.reports d = true → m.has d = true → d ∈ b.directions m := by
  have hdirs : ∀ {P : Dir → Prop}, (∀ d, P d) ↔ P .read ∧ P .write := by
    intro P
    constructor
    · exact fun h ↦ ⟨h .read, h .write⟩
    · rintro ⟨hr, hw⟩ (_ | _)
      · exact hr
      · exact hw
  rw [hdirs]
  obtain ⟨i, o, e, h⟩ := b
  obtain ⟨r, w⟩ := m
  revert i o e h r w
  decide

/-- What `Io.Loop` calls the report of an entry. -/
def report (b : EpollBits) : Option IoLoop.Report :=
  if b.epollIn then some .readable
  else if b.epollOut then some .writable
  else if b.epollErr || b.epollHup then some .hangup
  else none

theorem map_directions (b : EpollBits) (m : Mask) (i : ℕ) :
    (b.directions m).map (fun d ↦ (i, d)) = (b.report.map fun r ↦ r.offers i m).getD [] := by
  unfold directions report
  split_ifs with hin hout herr hread hwrite hwrite
  · rfl
  · rfl
  all_goals simp [IoLoop.Report.offers, *]

end EpollBits

/-! ## The loop over the entries -/

section Dispatch

variable {σ π κ : Type*} {P : Proactors σ π κ} {maxEvents : ℕ} {x y z : Dispatched σ π κ} {p : π}
  {d : Dir}

/-- The calls made and the entries filled are kept, and so is the interest. -/
structure Grows (P : Proactors σ π κ) (x y : Dispatched σ π κ) : Prop where
  offered : x.offered ⊆ y.offered
  events : x.events.length ≤ y.events.length
  interest : P.reactorEvents y.state = P.reactorEvents x.state

theorem Grows.refl : Grows P x x := ⟨List.Subset.refl _, le_rfl, rfl⟩

theorem Grows.trans (h₁ : Grows P x y) (h₂ : Grows P y z) : Grows P x z :=
  ⟨List.Subset.trans h₁.offered h₂.offered, h₁.events.trans h₂.events,
    h₂.interest.trans h₁.interest⟩

/-- `reactor_cb` has been called for the direction, or there is no room for its result. -/
def Served (maxEvents : ℕ) (x : Dispatched σ π κ) (p : π) (d : Dir) : Prop :=
  (p, d) ∈ x.offered ∨ maxEvents ≤ x.events.length

theorem Served.mono (h : Served maxEvents x p d) (hg : Grows P x y) : Served maxEvents y p d :=
  h.imp (fun hmem ↦ hg.offered hmem) hg.events.trans'

theorem append_grows (x : Dispatched σ π κ) (p : π) (d : Dir) :
    Grows P x (epollAppendReactorEvent P maxEvents x p d) := by
  unfold epollAppendReactorEvent
  split_ifs with hfull
  · exact Grows.refl
  · refine ⟨List.subset_append_left .., ?_, P.frame x.state p d⟩
    rw [List.length_append]
    exact Nat.le_add_right ..

theorem append_served (x : Dispatched σ π κ) (p : π) (d : Dir) :
    Served maxEvents (epollAppendReactorEvent P maxEvents x p d) p d := by
  unfold epollAppendReactorEvent
  split_ifs with hfull
  · exact Or.inr hfull
  · exact Or.inl (List.mem_append_right _ (List.mem_singleton_self _))

def offerAll (P : Proactors σ π κ) (maxEvents : ℕ) (p : π) (x : Dispatched σ π κ) (ds : List Dir) :
    Dispatched σ π κ :=
  ds.foldl (fun x d ↦ epollAppendReactorEvent P maxEvents x p d) x

theorem offerAll_spec (p : π) (ds : List Dir) : ∀ x : Dispatched σ π κ,
    Grows P x (offerAll P maxEvents p x ds) ∧
      ∀ d ∈ ds, Served maxEvents (offerAll P maxEvents p x ds) p d := by
  induction ds with
  | nil => exact fun x ↦ ⟨Grows.refl, nofun⟩
  | cons d ds ih =>
    intro x
    have hfirst : Grows P x (epollAppendReactorEvent P maxEvents x p d) := append_grows x p d
    obtain ⟨hrest, hserved⟩ := ih (epollAppendReactorEvent P maxEvents x p d)
    refine ⟨hfirst.trans hrest, fun e he ↦ ?_⟩
    rcases List.mem_cons.mp he with rfl | he
    · exact (append_served x p e).mono hrest
    · exact hserved e he

theorem epollDispatchEntry_eq (x : Dispatched σ π κ) (p : π) (b : EpollBits) :
    epollDispatchEntry P maxEvents x ⟨.proactor p, b⟩ =
      offerAll P maxEvents p x (b.directions (P.reactorEvents x.state p)) := by
  have hkeep : ∀ d, P.reactorEvents (epollAppendReactorEvent P maxEvents x p d).state p =
      P.reactorEvents x.state p := fun d ↦ congrFun (append_grows x p d).interest p
  obtain ⟨i, o, e, h⟩ := b
  unfold epollDispatchEntry EpollBits.directions
  dsimp only
  cases i with
  | true => rfl
  | false =>
    cases o with
    | true => rfl
    | false =>
      cases hb : e || h with
      | false => rfl
      | true =>
        simp only [Bool.false_eq_true, if_false, Bool.or_self, Bool.not_false, Bool.and_self,
          if_true]
        cases hr : (P.reactorEvents x.state p).read with
        | false =>
          cases hw : (P.reactorEvents x.state p).write <;> simp [hw, offerAll]
        | true =>
          have hw' := congrArg Mask.write (hkeep .read)
          cases hw : (P.reactorEvents x.state p).write <;> simp [hw, hw', offerAll]

theorem entry_grows (x : Dispatched σ π κ) (e : EpollEvent π) :
    Grows P x (epollDispatchEntry P maxEvents x e) := by
  obtain ⟨data, b⟩ := e
  cases data with
  | notifyfd => exact Grows.refl
  | proactor p =>
    rw [epollDispatchEntry_eq]
    exact (offerAll_spec p _ x).1

theorem dispatch_grows (entries : List (EpollEvent π)) : ∀ x : Dispatched σ π κ,
    Grows P x (epollDispatch P maxEvents x entries) := by
  induction entries with
  | nil => exact fun _ ↦ Grows.refl
  | cons e entries ih => exact fun x ↦ (entry_grows x e).trans (ih _)

/-- The directions that are offered for an entry are offered in the course of the loop, unless the
output array is full. -/
theorem epollDispatch_offers {entries : List (EpollEvent π)} {e : EpollEvent π}
    (x : Dispatched σ π κ) (he : e ∈ entries) (hdata : e.data = .proactor p)
    (hd : d ∈ e.events.directions (P.reactorEvents x.state p)) :
    Served maxEvents (epollDispatch P maxEvents x entries) p d := by
  induction entries generalizing x with
  | nil => cases he
  | cons first entries ih =>
    have hg : Grows P x (epollDispatchEntry P maxEvents x first) := entry_grows x first
    rcases List.mem_cons.mp he with rfl | he
    · obtain ⟨data, b⟩ := e
      obtain rfl : data = .proactor p := hdata
      have hserved : Served maxEvents (epollDispatchEntry P maxEvents x ⟨.proactor p, b⟩) p d := by
        rw [epollDispatchEntry_eq]
        exact (offerAll_spec p _ x).2 d hd
      exact hserved.mono (dispatch_grows entries _)
    · -- the entries before it leave the interest alone
      refine ih _ he ?_
      rw [hg.interest]
      exact hd

theorem offerAll_offered {ds : List Dir} {q : π} : ∀ {x : Dispatched σ π κ},
    (q, d) ∈ (offerAll P maxEvents p x ds).offered → (q, d) ∈ x.offered ∨ (q = p ∧ d ∈ ds) := by
  induction ds with
  | nil => exact fun h ↦ Or.inl h
  | cons first ds ih =>
    intro x h
    rcases ih h with h | ⟨rfl, hd⟩
    · dsimp only [epollAppendReactorEvent] at h
      split_ifs at h with hfull
      · exact Or.inl h
      · rcases List.mem_append.mp h with h | h
        · exact Or.inl h
        · obtain ⟨rfl, rfl⟩ := Prod.mk.inj (List.mem_singleton.mp h)
          exact Or.inr ⟨rfl, List.mem_cons_self⟩
    · exact Or.inr ⟨rfl, List.mem_cons_of_mem _ hd⟩

theorem epollDispatch_offered {entries : List (EpollEvent π)} : ∀ {x : Dispatched σ π κ},
    (p, d) ∈ (epollDispatch P maxEvents x entries).offered → (p, d) ∈ x.offered ∨
      ∃ e ∈ entries, e.data = .proactor p ∧
        d ∈ e.events.directions (P.reactorEvents x.state p) := by
  induction entries with
  | nil => exact fun h ↦ Or.inl h
  | cons first entries ih =>
    intro x h
    have hg : Grows P x (epollDispatchEntry P maxEvents x first) := entry_grows x first
    rcases ih h with h | ⟨e, he, hdata, hd⟩
    · obtain ⟨data, b⟩ := first
      cases data with
      | notifyfd => exact Or.inl h
      | proactor q =>
        rw [epollDispatchEntry_eq] at h
        rcases offerAll_offered h with h | ⟨rfl, hd⟩
        · exact Or.inl h
        · exact Or.inr ⟨_, List.mem_cons_self, rfl, hd⟩
    · rw [hg.interest] at hd
      exact Or.inr ⟨e, List.mem_cons_of_mem _ he, hdata, hd⟩

/-- No entry reports two things that concern directions of interest. -/
def Separate (P : Proactors σ π κ) (state : σ) (entries : List (EpollEvent π)) : Prop :=
  ∀ e ∈ entries, ∀ p, e.data = .proactor p → e.events.separate (P.reactorEvents state p) = true

/-- `reactor_cb` is called for every direction that is reported ready and in the interest, unless
the output array is full. -/
def ServesAll (P : Proactors σ π κ) (maxEvents : ℕ) (x : Dispatched σ π κ)
    (entries : List (EpollEvent π)) : Prop :=
  ∀ e ∈ entries, ∀ p d, e.data = .proactor p → e.events.reports d = true →
    (P.reactorEvents x.state p).has d = true →
      (p, d) ∈ (epollDispatch P maxEvents x entries).offered ∨
        maxEvents ≤ (epollDispatch P maxEvents x entries).events.length

theorem separate_of_servesAll {entries : List (EpollEvent π)} (hx : x.offered = [])
    (hnodup : (entries.map EpollEvent.data).Nodup)
    (hroom : (epollDispatch P maxEvents x entries).events.length < maxEvents)
    (h : ServesAll P maxEvents x entries) : Separate P x.state entries := by
  intro e he p hdata
  refine EpollBits.separate_iff.mpr fun d hreports hinterest ↦ ?_
  have hoffered := (h e he p d hdata hreports hinterest).resolve_right hroom.not_ge
  rcases epollDispatch_offered hoffered with hbefore | ⟨e', he', hdata', hd⟩
  · rw [hx] at hbefore
    cases hbefore
  · -- the proactor has one entry only
    obtain rfl := List.inj_on_of_nodup_map hnodup he he' (hdata.trans hdata'.symm)
    exact hd

/-- **A poll serves both directions** of every proactor, if no entry reports two things that concern
directions of interest. For distinct proactors and an output array that is not full after the poll,
it does so only then. -/
theorem epollDispatch_serves (entries : List (EpollEvent π)) (x : Dispatched σ π κ) :
    (Separate P x.state entries → ServesAll P maxEvents x entries) ∧
      (x.offered = [] → (entries.map EpollEvent.data).Nodup →
        (epollDispatch P maxEvents x entries).events.length < maxEvents →
          (ServesAll P maxEvents x entries ↔ Separate P x.state entries)) := by
  have hserves : Separate P x.state entries → ServesAll P maxEvents x entries := by
    intro hsep e he p d hdata hreports hinterest
    exact epollDispatch_offers x he hdata
      (EpollBits.separate_iff.mp (hsep e he p hdata) d hreports hinterest)
  exact ⟨hserves, fun hx hnodup hroom ↦ ⟨separate_of_servesAll hx hnodup hroom, hserves⟩⟩

end Dispatch

/-! ## The events of the library -/

/-- `reactor_cb` of an event, and whether it completes the context. -/
def Obj.reactorCb (o : Obj) (d : Dir) (sys : Sys) (fresh : Fresh) : Obj × Bool :=
  match o with
  | tcp t =>
    let (t', completed, _) := t.reactorCb d sys fresh
    (tcp t', completed)
  | udp u =>
    let (u', completed) := u.reactorCb d sys
    (udp u', completed)
  | async a => (async (a.reactorCb sys), true)

theorem Obj.reactorCb_reactorEvents (o : Obj) (d : Dir) (sys : Sys) (fresh : Fresh) :
    (o.reactorCb d sys fresh).1.proactor.reactorEvents = o.proactor.reactorEvents := by
  cases o with
  | tcp t =>
    cases d with
    | read =>
      simp only [reactorCb, Tcp.reactorCb, Tcp.reactorCbRead]
      split_ifs
      · rfl
      · split <;> rfl
      · split
        · split <;> rfl
        · rfl
        · rfl
    | write =>
      simp only [reactorCb, Tcp.reactorCb, Tcp.reactorCbWrite]
      split_ifs
      · rfl
      · split <;> rfl
      · rfl
  | udp u =>
    simp only [reactorCb, Udp.reactorCb]
    split <;> rfl
  | async a =>
    simp only [reactorCb, Async.reactorCb]
    split <;> rfl

/-- The memory of the events, and the results of the system calls that are made next. -/
structure IoProactors where
  mem : ℕ → Option Obj
  results : ℕ → Sys × Fresh

def ioProactors : Proactors IoProactors ℕ Dir where
  reactorCb s i d :=
    match s.mem i with
    | none => (s, none)
    | some o =>
      let r := o.reactorCb d (s.results 0).1 (s.results 0).2
      (⟨Function.update s.mem i (some r.1), fun n ↦ s.results (n + 1)⟩,
        if r.2 then some d else none)
  reactorEvents s i :=
    match s.mem i with
    | none => .empty
    | some o => o.proactor.reactorEvents
  frame s i d := by
    funext j
    cases hi : s.mem i with
    | none => rfl
    | some o =>
      dsimp only
      by_cases hj : j = i
      · subst hj
        rw [Function.update_self, hi]
        exact o.reactorCb_reactorEvents d _ _
      · rw [Function.update_of_ne hj]

/-- While no read is pending and input is there, a poll does not offer the write direction of a TCP
event, and leaves the event as it is. -/
theorem epollDispatch_of_unread {s : IoProactors} {i maxEvents : ℕ} {t : Tcp} {b : EpollBits}
    (ht : s.mem i = some (.tcp t)) (hreading : t.reading = false) (hin : b.epollIn = true)
    (hmax : 0 < maxEvents) :
    epollDispatch ioProactors maxEvents ⟨s, [], []⟩ [⟨.proactor i, b⟩] =
      ⟨⟨s.mem, fun n ↦ s.results (n + 1)⟩, [], [(i, .read)]⟩ := by
  have hcb : ioProactors.reactorCb s i .read = (⟨s.mem, fun n ↦ s.results (n + 1)⟩, none) := by
    simp only [ioProactors, ht, Obj.reactorCb, Tcp.reactorCb, Tcp.reactorCbRead, hreading, if_true,
      Bool.false_eq_true, if_false]
    rw [← ht, Function.update_eq_self]
  rw [epollDispatch, List.foldl_cons, List.foldl_nil, epollDispatchEntry]
  dsimp only
  rw [if_pos hin, epollAppendReactorEvent, if_neg (by rw [List.length_nil]; omega), hcb]
  rfl

/-- A connection is made, and the write that is started on it has to wait. -/
def deferWrite : List IoLoop.Action :=
  [.new .tcp, .tcp 0 (.connect true (some ⟨5, 0⟩) true) { Sys.ok 0 with connect := .inProgress },
    .runEnter, .processEndgame, .epollWait, .report 0 .writable,
    .offer { Sys.ok 0 with io := .wouldBlock }, .pollReturn, .dispatch (.ok 0),
    .tcp 0 (.write ⟨4, 8⟩ none true) { Sys.ok 0 with io := .wouldBlock }, .callbackReturn,
    .nextRound, .processEndgame, .epollWait]

theorem deferWrite_spec :
    ∃ s t, Reachable IoLoop.step anyStep IoLoop.init s ∧ s.phase = .polling [] [] ∧
      s.mem 0 = some (.tcp t) ∧ t.writing = true ∧ t.reading = false ∧
      t.reactorEvents = ⟨true, true⟩ := by
  have hrun : (exec IoLoop.step anyStep IoLoop.init deferWrite).map (fun s ↦ (s.phase,
      (s.mem 0).map fun o ↦ (o.type, o.proactor.writing, o.proactor.reading,
        o.proactor.reactorEvents))) =
      some (.polling [] [], some (.tcp, true, false, ⟨true, true⟩)) := by decide +kernel
  obtain ⟨s, hexec, heq⟩ := Option.map_eq_some_iff.mp hrun
  obtain ⟨hphase, hmem⟩ := Prod.mk.inj heq
  obtain ⟨o, ho, hfields⟩ := Option.map_eq_some_iff.mp hmem
  simp only [Prod.mk.injEq] at hfields
  obtain ⟨htype, hwriting, hreading, hinterest⟩ := hfields
  cases o with
  | tcp t => exact ⟨s, t, Reachable.of_exec hexec, hphase, ho, hwriting, hreading, hinterest⟩
  | udp | async => cases htype

theorem epollDispatch_serves_writable :
    ∃ s t, Reachable IoLoop.step anyStep IoLoop.init s ∧ s.mem 0 = some (.tcp t) ∧
      t.writing = true ∧
      ∀ results, (0, .write) ∈
        (epollDispatch ioProactors IoLoop.maxEvents ⟨⟨s.mem, results⟩, [], []⟩
          [⟨.proactor 0, ⟨false, true, false, false⟩⟩]).offered ∨
        IoLoop.maxEvents ≤ (epollDispatch ioProactors IoLoop.maxEvents ⟨⟨s.mem, results⟩, [], []⟩
          [⟨.proactor 0, ⟨false, true, false, false⟩⟩]).events.length := by
  obtain ⟨s, t, hreach, -, ht, hwriting, -, hinterest⟩ := deferWrite_spec
  have hevents : ∀ results, ioProactors.reactorEvents ⟨s.mem, results⟩ 0 = ⟨true, true⟩ := by
    intro results
    simp only [ioProactors, ht]
    exact hinterest
  refine ⟨s, t, hreach, ht, hwriting, fun results ↦ ?_⟩
  have hserves : _ → ServesAll ioProactors IoLoop.maxEvents ⟨⟨s.mem, results⟩, [], []⟩ _ :=
    (epollDispatch_serves [⟨.proactor 0, ⟨false, true, false, false⟩⟩] _).1
  refine hserves ?_ _ (List.mem_singleton_self _) 0 .write rfl rfl ?_
  · intro e he p hp
    obtain rfl := List.mem_singleton.mp he
    rfl
  · rw [hevents]
    rfl

/-- With `EPOLLIN` and `EPOLLOUT` set and no read pending, the pending write is not offered in this
poll, nor in the next one: nothing has changed. -/
theorem exists_write_not_offered :
    ∃ s t, Reachable IoLoop.step anyStep IoLoop.init s ∧ s.phase = .polling [] [] ∧
      s.mem 0 = some (.tcp t) ∧ t.writing = true ∧ t.reading = false ∧
      t.reactorEvents = ⟨true, true⟩ ∧
      ∀ results, ∃ x, epollDispatch ioProactors IoLoop.maxEvents ⟨⟨s.mem, results⟩, [], []⟩
          [⟨.proactor 0, ⟨true, true, false, false⟩⟩] = x ∧
        (0, .write) ∉ x.offered ∧ x.events = [] ∧ x.state.mem = s.mem := by
  obtain ⟨s, t, hreach, hphase, ht, hwriting, hreading, hinterest⟩ := deferWrite_spec
  refine ⟨s, t, hreach, hphase, ht, hwriting, hreading, hinterest, fun results ↦ ⟨_, rfl, ?_⟩⟩
  rw [epollDispatch_of_unread ht hreading rfl (by decide)]
  exact ⟨(by decide : ((0, .write) : ℕ × Dir) ∉ [(0, .read)]), rfl, rfl⟩

end Nanoev
