import Nanoev.Io.AsyncLoop

/-!
# The pass over the deferred deletions

`__process_endgame_proactor` decides with `READING` and `WRITING` whether an event on the list can
be released, and then calls the free function of its type, which decides again. For TCP and UDP
events the two conditions are the same. `async_free` also looks at `async_sent`: an async event that
was freed between `nanoev_async_send` and the delivery of the notification passes the first test and
fails the second, so it is put on the list a second time while the pass walks over it.

The pass does what it is for exactly when no such event is on the list. One direction holds since
the two conditions then agree on every event. For the other, an event on the list that was sent to
has neither flag set, as nothing sets the flags of an async event: the pass takes it up, the
assertion of `__add_endgame_proactor` fails, and a pass with a failed assertion is not what is
meant.
-/

namespace Nanoev

open Transition Memory

namespace Obj

/-- A notification has been sent and not been delivered. -/
def notified : Obj → Bool
  | async a => a.asyncSent
  | _ => false

/-- The event has work outstanding: an operation, or a notification that is to be delivered. -/
def outstanding (o : Obj) : Bool := o.proactor.reading || o.proactor.writing || o.notified

/-- The two conditions agree when the free function only defers for a reason that the pass sees. -/
theorem verdict_of_flags {o : Obj}
    (h : o.freeDefers = true → (o.proactor.reading || o.proactor.writing) = true) :
    o.verdict = if o.proactor.reading || o.proactor.writing then .keep else .release := by
  unfold verdict
  revert h
  cases o.freeDefers <;> cases o.proactor.reading <;> cases o.proactor.writing <;> simp

/-- The pass and the free functions agree on an event without an undelivered notification. -/
theorem verdict_of_not_notified {o : Obj} (h : o.notified = false) :
    o.verdict = if o.outstanding then .keep else .release := by
  rw [outstanding, h, Bool.or_false]
  refine verdict_of_flags fun hdefers ↦ ?_
  cases o with
  | tcp t | udp u => exact hdefers
  | async a =>
    rw [notified] at h
    rw [freeDefers, Async.asyncFreeDefers, h, Bool.false_or] at hdefers
    rw [proactor, hdefers, Bool.true_or]

/-- An async event with an undelivered notification is put on the list again. -/
theorem verdict_of_notified {a : Async} (hsent : a.asyncSent = true) (hr : a.reading = false)
    (hw : a.writing = false) : (async a).verdict = .relist := by
  have hdefers : (async a).freeDefers = true := by
    rw [freeDefers, Async.asyncFreeDefers, hsent, Bool.true_or]
  rw [verdict, proactor, hr, hw, hdefers]
  rfl

end Obj

namespace IoLoop

variable {s s' : IoLoop} {l : List ℕ}

def outstanding (s : IoLoop) (i : ℕ) : Bool := (s.mem i).any Obj.outstanding

/-- An event has a notification that has not been delivered. -/
def notified (s : IoLoop) (i : ℕ) : Bool := (s.mem i).any Obj.notified

theorem Endgame.verdict_eq (h : s.Endgame l) (hn : ∀ i ∈ l, s.notified i = false) {i : ℕ}
    (hi : i ∈ l) : s.verdict i = if s.outstanding i then .keep else .release := by
  obtain ⟨o, ho, -⟩ := h.deleted i hi
  have hno := hn i hi
  rw [notified, ho, Option.any_some] at hno
  rw [IoLoop.verdict_eq ho, Obj.verdict_of_not_notified hno, outstanding, ho, Option.any_some]

/-- What the pass over the list `l` is for: it comes to its end in `s'`, the events without
outstanding work are released, in order and each once, the others stay on the list in their order,
and no event is put on the list a second time. -/
structure Passes (s : IoLoop) (l : List ℕ) (s' : IoLoop) : Prop where
  ends : s.processEndgameProactor = some s'
  list : s'.Endgame (l.filter s.outstanding)
  released : s'.released = s.released ++ l.filter fun i ↦ !s.outstanding i
  once : (l.filter fun i ↦ !s.outstanding i).Nodup
  memory : ∀ i, s'.mem i = none ↔ s.mem i = none ∨ i ∈ l ∧ s.outstanding i = false
  asserts : s'.assertFailures = s.assertFailures

theorem Memory.passes (hm : s.Memory) (hl : s.Endgame l) (hn : ∀ i ∈ l, s.notified i = false) :
    ∃ s', s.Passes l s' := by
  obtain ⟨s', hs', hend, hswept⟩ := hm.processEndgame hl
  have hkeep : ∀ i ∈ l, (decide (s.verdict i = .keep)) = s.outstanding i := by
    intro i hi
    rw [hl.verdict_eq hn hi]
    cases s.outstanding i <;> rfl
  have hrelease : s.judged .release l = l.filter fun i ↦ !s.outstanding i := by
    refine List.filter_congr fun i hi ↦ ?_
    rw [hl.verdict_eq hn hi]
    cases s.outstanding i <;> rfl
  have hrelist : ∀ i ∈ l, s.verdict i ≠ .relist := by
    intro i hi
    rw [hl.verdict_eq hn hi]
    cases s.outstanding i <;> decide
  have hnone : s.judged .relist l = [] := by
    refine List.filter_eq_nil_iff.mpr fun i hi ↦ ?_
    simpa using hrelist i hi
  rw [sweep_eq_filter hrelist, List.nil_append, List.filter_congr hkeep] at hend
  rw [hrelease, hnone] at hswept
  refine ⟨s', hs', hend, by rw [hswept.eq], hl.nodup.filter _, fun i ↦ ?_, ?_⟩
  · by_cases hi : i ∈ l.filter fun i ↦ !s.outstanding i
    · refine iff_of_true (hswept.gone_mem i hi) (.inr ?_)
      simpa using List.mem_filter.mp hi
    · obtain ⟨n, hlink⟩ := hswept.links i hi
      rw [hlink, Option.map_eq_none_iff]
      refine ⟨.inl, fun h ↦ h.resolve_right fun h ↦ hi ?_⟩
      simpa using h
  · rw [hswept.eq]
    exact List.append_nil _

theorem Memory.judged_relist_of_passes (hm : s.Memory) (hl : s.Endgame l) (hp : s.Passes l s') :
    s.judged .relist l = [] := by
  obtain ⟨s₁, hs₁, -, hswept⟩ := hm.processEndgame hl
  obtain rfl := Option.some.inj (hp.ends.symm.trans hs₁)
  have hasserts := hp.asserts
  rw [hswept.eq] at hasserts
  exact List.append_right_eq_self.mp hasserts

theorem Notified.not_notified_of_passes (hn : s.Notified) (hl : s.Endgame l)
    (hp : s.Passes l s') {i : ℕ} (hi : i ∈ l) : s.notified i = false := by
  obtain ⟨o, ho, -⟩ := hl.deleted i hi
  rw [notified, ho, Option.any_some]
  by_contra hnot
  cases o with
  | tcp t | udp u => exact hnot rfl
  | async a =>
    have hsent : a.asyncSent = true := eq_true_of_ne_false hnot
    obtain ⟨hr, hw⟩ := (hn.async i a ho).flags
    have hrelist : s.verdict i = .relist := by
      rw [IoLoop.verdict_eq ho, Obj.verdict_of_notified hsent hr hw]
    have hmem : i ∈ s.judged .relist l := List.mem_filter.mpr ⟨hi, decide_eq_true hrelist⟩
    rw [hn.wf.memory.judged_relist_of_passes hl hp] at hmem
    cases hmem

/-- **The pass of a running loop**, from every reachable state: it comes to its end, and it releases
what has no outstanding work and leaves the rest as it is if and only if no async event on the list
has a notification that was sent and not delivered. -/
theorem passes_iff_not_notified (h : Reachable step anyStep init s) :
    ∃ l, s.Endgame l ∧ (∃ s', s.processEndgameProactor = some s') ∧
      ((∃ s', s.Passes l s') ↔ ∀ i ∈ l, s.notified i = false) := by
  have hn := notified_of_reachable h
  have hm := hn.wf.memory
  obtain ⟨l, hl⟩ := hm.endgame
  obtain ⟨s', hs', -⟩ := hm.processEndgame hl
  refine ⟨l, hl, ⟨s', hs'⟩, ?_, hm.passes hl⟩
  rintro ⟨s₁, hpass⟩ i hi
  exact hn.not_notified_of_passes hl hpass hi

/-- Three events are freed with an operation pending; one of the operations is completed then. -/
def freePending : List Action :=
  [.new .tcp, .new .udp, .new .udp,
    .tcp 0 (.connect true none true) { Sys.ok 0 with connect := .inProgress },
    .udp 1 (.write ⟨1, 8⟩ (some ⟨2, 7⟩) true) (.ok 1),
    .udp 2 (.bind ⟨2, 7⟩) (.ok 0), .udp 2 (.read ⟨1, 8⟩ true) (.ok 0), .free 0, .free 1, .free 2,
    .runEnter, .processEndgame, .takeQueued, .dispatch (.ok 0), .nextRound]

theorem passes_iff_not_notified_freePending :
    ∃ s, exec step anyStep init freePending = some s ∧
      ∃ s', s.Passes [2, 1, 0] s' ∧ s'.released = [1] := by
  have hrun : ((exec step anyStep init freePending).map fun s ↦
      (s.released, [s.endgameHead, s.nextOf 2, s.nextOf 1, s.nextOf 0],
        [2, 1, 0].map s.notified, [2, 1, 0].map s.outstanding)) =
      some ([], [some 2, some 1, some 0, none], [false, false, false], [true, false, true]) := by
    decide +kernel
  obtain ⟨s, hs, hfields⟩ := Option.map_eq_some_iff.mp hrun
  simp only [Prod.mk.injEq, List.map_cons, List.map_nil, List.cons.injEq, and_true] at hfields
  obtain ⟨hreleased, ⟨hhead, h₂, h₁, h₀⟩, ⟨hn₂, hn₁, hn₀⟩, ho₂, ho₁, ho₀⟩ := hfields
  obtain ⟨l, hl, -, hpass⟩ := passes_iff_not_notified (Reachable.of_exec hs)
  have hchain : Chain s.nextOf s.endgameHead [2, 1, 0] none := ⟨hhead, h₂, h₁, h₀⟩
  obtain rfl := hl.chain.unique hchain
  obtain ⟨s', hs'⟩ := hpass.mpr (by simp [hn₀, hn₁, hn₂])
  refine ⟨s, hs, s', hs', ?_⟩
  rw [hs'.released, hreleased]
  simp [ho₀, ho₁, ho₂]

/-- An async event is freed after a notification was sent, and the loop is entered. -/
def freeNotified : List Action :=
  [.new .async, .asyncStart 0 (.ok 0), .asyncSend 0 true, .free 0, .runEnter]

/-- The pass puts the event on the list a second time and then drops it: it is neither released nor
on the list afterwards. -/
theorem freeNotified_not_passes :
    ∃ s s', Reachable step anyStep init s ∧ s.Endgame [0] ∧ s.outstanding 0 = true ∧
      s.processEndgameProactor = some s' ∧ s'.assertFailures = s.assertFailures ++ [0] ∧
      s'.Endgame [] ∧ s'.released = s.released ∧ (s'.mem 0).isSome = true ∧
      ¬∃ s', s.Passes [0] s' := by
  have hrun : ((exec step anyStep init freeNotified).bind fun s ↦
      s.processEndgameProactor.map fun s' ↦
        ([s.endgameHead, s.nextOf 0, s'.endgameHead], [s.outstanding 0, (s'.mem 0).isSome],
          [s.assertFailures, s'.assertFailures, s.released, s'.released])) =
      some ([some 0, none, none], [true, true], [[], [0], [], []]) := by decide +kernel
  obtain ⟨s, hs, hfields⟩ := Option.bind_eq_some_iff.mp hrun
  obtain ⟨s', hs', hfields⟩ := Option.map_eq_some_iff.mp hfields
  simp only [Prod.mk.injEq, List.cons.injEq, and_true] at hfields
  obtain ⟨⟨hhead, hnext, hhead'⟩, ⟨hout, hmem'⟩, hasserts, hasserts', hreleased, hreleased'⟩ :=
    hfields
  have hreach : Reachable step anyStep init s := Reachable.of_exec hs
  obtain ⟨l, hl⟩ := (wf_of_reachable hreach).memory.endgame
  have hchain : Chain s.nextOf s.endgameHead [0] none := ⟨hhead, hnext⟩
  obtain rfl := hl.chain.unique hchain
  refine ⟨s, s', hreach, hl, hout, hs', by rw [hasserts, hasserts', List.nil_append],
    ⟨hhead', List.nodup_nil, by simp⟩, by rw [hreleased, hreleased'], hmem', ?_⟩
  rintro ⟨s₁, hpass⟩
  obtain rfl := Option.some.inj (hs'.symm.trans hpass.ends)
  have := hpass.asserts
  rw [hasserts, hasserts'] at this
  cases this

end IoLoop

end Nanoev
