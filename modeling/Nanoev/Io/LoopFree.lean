import Nanoev.Io.AcceptLedger
import Nanoev.Io.EndgamePass

/-!
# Freeing a loop

`nanoev_loop_free` destroys the poller, with the completions that are still in its queue, and makes
a last pass over the deferred deletions. The enforcing pass clears the flags that have deferred them
and calls the free function of each event once more. Its cursor never leaves the head of the list,
so it always comes to its end with an empty list.

Two things escape it, since the flags do not tell of them. `async_free` looks at `async_sent`: an
event with an undelivered notification is put on the list again and drops out of it, with its pipe
and its memory. And `tcp_free` does not look at `socket_accept`: a descriptor that waits there for
its completion is lost with the event.

Each event on the list is released once and its descriptors are closed once exactly when neither is
the case. This rests on what the events hold in any run, also in one where a half-built connection
was closed twice: no descriptor is held twice, and none that is held has been closed (`Tidy`). So a
descriptor that waits in one event is not among those that the pass closes for another.
-/

namespace Nanoev

open Memory Transition

/-- `__remove_lazy_delete_flags`. -/
def Obj.removeLazyDeleteFlags (o : Obj) : Obj :=
  o.setProactor { o.proactor with deleted := false, reading := false, writing := false }

/-- The descriptor of an accepted connection that the event has not passed to the client. -/
def Obj.parked : Obj → List ℕ
  | .tcp t => t.readSlot.held
  | _ => []

namespace IoLoop

/-- The body of the loop in `__process_endgame_proactor(loop, 1)`, for the event `*cur`. -/
def enforcingStep (s : IoLoop) (cur : Cursor) (i : ℕ) (o : Obj) : IoLoop :=
  let next := o.proactor.next
  let o' := o.removeLazyDeleteFlags
  ((s.put i o').freeProactor i o').store next cur

/-- `__process_endgame_proactor(loop, 1)` from the given cursor, with at most `fuel` rounds; there
is no result when they do not suffice or the memory of an event on the list is gone. -/
def enforcingLoop : ℕ → IoLoop → Cursor → Option IoLoop
  | 0, _, _ => none
  | fuel + 1, s, cur =>
    match s.load cur with
    | none => some s
    | some i =>
      match s.mem i with
      | none => none
      | some o => enforcingLoop fuel (s.enforcingStep cur i o) cur

/-- `nanoev_loop_free`, as far as the events are concerned. -/
def nanoevLoopFree (s : IoLoop) : Option IoLoop :=
  -- `poller_destroy` drops the completions in the queue
  enforcingLoop (s.nextEvent + 1) { s with queue := [] } .head

/-- The descriptors of accepted connections that wait in an event. -/
def parked (s : IoLoop) (i : ℕ) : List ℕ := heldAt Obj.parked (s.mem i)

/-- What freeing the loop is for: event `i` is released, once, and each descriptor that it held has
been closed, once. -/
structure TornDown (s : IoLoop) (i : ℕ) (s' : IoLoop) : Prop where
  memory : s'.mem i = none
  released : s'.released.count i = 1
  closed : ∀ fd ∈ heldAt Obj.descriptors (s.mem i), s'.closed.count fd = 1

end IoLoop

/-! ## The enforcing pass -/

namespace Obj

variable {o : Obj}

theorem removeLazyDeleteFlags_defers (o : Obj) :
    o.removeLazyDeleteFlags.freeDefers = o.notified := by
  cases o with
  | tcp t | udp u => rfl
  | async a => exact Bool.or_false _

theorem removeLazyDeleteFlags_closes (h : o.notified = false) :
    o.removeLazyDeleteFlags.freeCloses = o.own := by
  rw [freeCloses_eq_own _ (o.removeLazyDeleteFlags_defers.trans h)]
  cases o <;> rfl

theorem removeLazyDeleteFlags_relisted (h : o.notified = true) :
    o.removeLazyDeleteFlags.freeCloses = [] ∧
      o.removeLazyDeleteFlags.freed.proactor.deleted = false := by
  cases o with
  | tcp t | udp u => cases h
  | async a =>
    have hsent : a.asyncSent = true := h
    refine ⟨if_pos ?_, rfl⟩
    show (a.asyncSent || false) = true
    rw [hsent, Bool.true_or]

/-- An event owns its descriptors, apart from the accepted ones that wait in it. -/
theorem count_descriptors (o : Obj) (fd : ℕ) :
    o.descriptors.count fd = o.own.count fd + o.parked.count fd := by
  cases o with
  | tcp t => exact List.count_append
  | udp u | async a => rfl

theorem parked_subset (o : Obj) : o.parked ⊆ o.descriptors := by
  cases o with
  | tcp t => exact List.subset_append_right _ _
  | udp u | async a => exact List.nil_subset _

end Obj

namespace IoLoop

variable {s s' : IoLoop} {l : List ℕ} {i : ℕ} {o o' : Obj}

theorem enforcingStep_of_release (h : o.notified = false) :
    s.enforcingStep .head i o =
      { s with
        mem := Function.update s.mem i none
        endgameHead := o.proactor.next
        released := s.released ++ [i]
        closed := s.closed ++ o.own } := by
  have hdefers := o.removeLazyDeleteFlags_defers.trans h
  rw [enforcingStep, freeProactor, hdefers, Obj.removeLazyDeleteFlags_closes h, if_neg (by decide)]
  simp only [store, release, put, Function.update_idem]

/-- A round with an event that has an undelivered notification: it is put on the list, and the
assignment to `*cur` takes it off. -/
theorem enforcingStep_of_notified (h : o.notified = true) :
    ∃ x, s.enforcingStep .head i o =
      { s with mem := Function.update s.mem i (some x), endgameHead := o.proactor.next } := by
  have hdefers := o.removeLazyDeleteFlags_defers.trans h
  obtain ⟨hcloses, hdeleted⟩ := Obj.removeLazyDeleteFlags_relisted h
  refine ⟨o.removeLazyDeleteFlags.freed.setProactor
    { o.removeLazyDeleteFlags.freed.proactor with deleted := true, next := s.endgameHead }, ?_⟩
  rw [enforcingStep, freeProactor, hdefers, hcloses, if_pos rfl]
  simp only [store, addEndgameProactor, put, Function.update_idem, hdeleted, List.append_nil,
    Bool.false_eq_true, if_false]

/-- What the enforcing pass does to the events of the list `l`. -/
structure Enforced (s : IoLoop) (l : List ℕ) (s' : IoLoop) : Prop where
  list : s'.endgameHead = none
  released : s'.released = s.released ++ l.filter fun i ↦ !s.notified i
  closed : s'.closed = s.closed ++
    (l.filter fun i ↦ !s.notified i).flatMap fun i ↦ heldAt Obj.own (s.mem i)
  gone : ∀ i ∈ l, s.notified i = false → s'.mem i = none
  others : ∀ i ∉ l, s'.mem i = s.mem i

theorem Enforced.cons {x : Option Obj} {s₁ : IoLoop} (ho : s.mem i = some o) (hi : i ∉ l)
    (h : s₁.Enforced l s') (hmem : s₁.mem = Function.update s.mem i x)
    (hreleased : s₁.released = s.released ++ if o.notified then [] else [i])
    (hclosed : s₁.closed = s.closed ++ if o.notified then [] else o.own)
    (hx : o.notified = false → x = none) : s.Enforced (i :: l) s' := by
  have hsame : ∀ j ∈ l, s₁.mem j = s.mem j := by
    intro j hj
    rw [hmem, Function.update_of_ne fun hji : j = i ↦ hi (hji ▸ hj)]
  have hself : s.notified i = o.notified := by rw [notified, ho, Option.any_some]
  have hfilter : (l.filter fun j ↦ !s₁.notified j) = l.filter fun j ↦ !s.notified j :=
    List.filter_congr fun j hj ↦ by rw [notified, hsame j hj, notified]
  have howns : ((l.filter fun j ↦ !s.notified j).flatMap fun j ↦ heldAt Obj.own (s₁.mem j)) =
      (l.filter fun j ↦ !s.notified j).flatMap fun j ↦ heldAt Obj.own (s.mem j) :=
    List.flatMap_congr fun j hj ↦ by rw [hsame j (List.mem_of_mem_filter hj)]
  refine ⟨h.list, ?_, ?_, ?_, ?_⟩
  · rw [h.released, hreleased, hfilter, List.filter_cons, hself]
    cases o.notified <;> simp
  · rw [h.closed, hclosed, hfilter, howns, List.filter_cons, hself]
    cases o.notified with
    | false => simp [ho, heldAt]
    | true => simp
  · intro j hj hnot
    rcases List.mem_cons.mp hj with rfl | hj
    · rw [h.others j hi, hmem, Function.update_self]
      exact hx (hself.symm.trans hnot)
    · exact h.gone j hj (by rw [notified, hsame j hj]; exact hnot)
  · intro j hj
    rw [List.mem_cons, not_or] at hj
    rw [h.others j hj.2, hmem, Function.update_of_ne hj.1]

/-- **The enforcing pass** comes to its end, whatever the events on the list are waiting for. -/
theorem enforcingLoop_spec {fuel : ℕ} (hchain : Chain s.nextOf s.endgameHead l none)
    (hnodup : l.Nodup) (hmem : ∀ i ∈ l, ∃ o, s.mem i = some o) (hfuel : l.length < fuel) :
    ∃ s', enforcingLoop fuel s .head = some s' ∧ s.Enforced l s' := by
  induction l generalizing s fuel with
  | nil =>
    obtain ⟨fuel, rfl⟩ := Nat.exists_eq_succ_of_ne_zero (Nat.ne_of_gt hfuel)
    have hhead : s.endgameHead = none := hchain
    refine ⟨s, by rw [enforcingLoop, load, hhead], hhead, ?_, ?_, by simp, fun _ _ ↦ rfl⟩
    · exact (List.append_nil _).symm
    · exact (List.append_nil _).symm
  | cons i l ih =>
    obtain ⟨fuel, rfl⟩ := Nat.exists_eq_succ_of_ne_zero (Nat.ne_of_gt (Nat.zero_lt_of_lt hfuel))
    obtain ⟨hi, hnodup⟩ := List.nodup_cons.mp hnodup
    obtain ⟨o, ho⟩ := hmem i List.mem_cons_self
    have hhead : s.endgameHead = some i := hchain.1
    have hrest : Chain s.nextOf o.proactor.next l none := by
      have := hchain.2
      rwa [nextOf, ho, Option.bind_some] at this
    -- the round leaves the events after the first one alone
    have hround : ∀ (x : Option Obj) (s₁ : IoLoop), s₁.mem = Function.update s.mem i x →
        s₁.endgameHead = o.proactor.next →
        ∃ s', enforcingLoop fuel s₁ .head = some s' ∧ s₁.Enforced l s' := by
      intro x s₁ hs₁ hnext
      have hsame : ∀ j ∈ l, s₁.mem j = s.mem j := by
        intro j hj
        rw [hs₁, Function.update_of_ne fun hji : j = i ↦ hi (hji ▸ hj)]
      refine ih ?_ hnodup (fun j hj ↦ ?_) (Nat.lt_of_succ_lt_succ hfuel)
      · rw [hnext]
        exact hrest.congr fun j hj ↦ nextOf_congr (hsame j hj)
      · rw [hsame j hj]
        exact hmem j (List.mem_cons_of_mem i hj)
    rw [enforcingLoop, load, hhead]
    simp only [ho]
    cases hnot : o.notified with
    | false =>
      have hstep := enforcingStep_of_release (s := s) (i := i) hnot
      obtain ⟨s', hs', henforced⟩ := hround none (s.enforcingStep .head i o) (by rw [hstep])
        (by rw [hstep])
      refine ⟨s', hs', henforced.cons (x := none) ho hi (by rw [hstep]) ?_ ?_ fun _ ↦ rfl⟩
      · rw [hstep, hnot]
        rfl
      · rw [hstep, hnot]
        rfl
    | true =>
      obtain ⟨x, hstep⟩ := enforcingStep_of_notified (s := s) (i := i) hnot
      obtain ⟨s', hs', henforced⟩ := hround (some x) (s.enforcingStep .head i o) (by rw [hstep])
        (by rw [hstep])
      refine ⟨s', hs', henforced.cons (x := some x) ho hi (by rw [hstep]) ?_ ?_ fun h ↦ ?_⟩
      · rw [hstep, hnot]
        exact (List.append_nil _).symm
      · rw [hstep, hnot]
        exact (List.append_nil _).symm
      · rw [hnot] at h
        cases h

theorem Memory.nanoevLoopFree (hm : s.Memory) (hl : s.Endgame l) :
    ∃ s', s.nanoevLoopFree = some s' ∧ s.Enforced l s' := by
  obtain ⟨s', hs', henforced⟩ := enforcingLoop_spec (s := { s with queue := [] }) hl.chain hl.nodup
    (fun i hi ↦ (hl.deleted i hi).imp fun o ho ↦ ho.1) (hm.endgame_length hl)
  exact ⟨s', hs', henforced.list, henforced.released, henforced.closed, henforced.gone,
    henforced.others⟩

/-! ## Descriptors are held once -/

/-- What holds in any run: a descriptor that is held was opened once, is held once and has not been
closed, and an event that has been released has no memory. -/
structure Tidy (s : IoLoop) : Prop where
  held : ∀ fd, total Obj.descriptors s.mem s.nextEvent fd + min 1 (s.closed.count fd) ≤
    s.opened.count fd
  opened : Issued s.opened s.nextFd
  released : ∀ i ∈ s.released, s.mem i = none ∧ i < s.nextEvent

theorem init_tidy : init.Tidy where
  held := by
    intro fd
    rw [show init.nextEvent = 0 from rfl, total_zero]
    exact Nat.le_refl _
  opened := issued_nil _
  released := nofun

namespace Tidy

variable {client : Option Tcp} {effects : List IoEffect}

theorem released_update {x : Option Obj} (h : s.Tidy) (hi : x = none ∨ i ∉ s.released) {n : ℕ}
    (hn : s.nextEvent ≤ n) :
    ∀ j ∈ s.released, Function.update s.mem i x j = none ∧ j < n := by
  intro j hj
  refine ⟨?_, (h.released j hj).2.trans_le hn⟩
  by_cases hji : j = i
  · subst hji
    rw [Function.update_self]
    exact hi.resolve_right fun hnot ↦ hnot hj
  · rw [Function.update_of_ne hji]
    exact (h.released j hj).1

theorem not_released (h : s.Tidy) (ho : s.mem i = some o) : i ∉ s.released := by
  intro hi
  have hnone := (h.released i hi).1
  rw [ho] at hnone
  cases hnone

theorem act (h : s.Tidy) (hm : s.Memory) (ho : s.mem i = some o)
    (hcedes : Cedes s.fresh o o' client effects) (type : EventType) :
    (((s.perform type i effects).put i o').addClient s.nextEvent client).Tidy := by
  have hheld : ∀ fd, total Obj.descriptors
        (((s.perform type i effects).put i o').addClient s.nextEvent client).mem
        (s.nextEvent + 1) fd + min 1 ((s.closed ++ closedBy effects).count fd) ≤
      (s.opened ++ openedBy effects).count fd := by
    intro fd
    have hheld := h.held fd
    have hcedes := hcedes.descriptors fd
    have hact := total_act hm ho o' client type effects fd
    rw [List.count_append, List.count_append]
    omega
  have hopened : Issued (s.opened ++ openedBy effects) (s.nextFd + 2) :=
    h.opened.append hcedes.opened
  have hreleased : ∀ j ∈ s.released, Function.update s.mem i (some o') j = none ∧
      j < s.nextEvent + 1 := h.released_update (.inr (h.not_released ho)) (Nat.le_succ _)
  cases client with
  | none => exact ⟨hheld, hopened, hreleased⟩
  | some c =>
    refine ⟨hheld, hopened, fun j hj ↦ ⟨?_, (hreleased j hj).2⟩⟩
    show Function.update (Function.update s.mem i (some o')) s.nextEvent _ j = none
    rw [Function.update_of_ne (h.released j hj).2.ne]
    exact (hreleased j hj).1

theorem put (h : s.Tidy) (hm : s.Memory) (ho : s.mem i = some o)
    (hd : o'.descriptors = o.descriptors) : (s.put i o').Tidy where
  held := by
    intro fd
    show total Obj.descriptors (s.put i o').mem s.nextEvent fd + min 1 (s.closed.count fd) ≤
      s.opened.count fd
    have hput := total_put hm ho o' fd
    have hheld := h.held fd
    rw [hd] at hput
    omega
  opened := h.opened
  released := h.released_update (.inr (h.not_released ho)) le_rfl

theorem eventNew (h : s.Tidy) (hm : s.Memory) (type : EventType) : (s.eventNew type).Tidy where
  held := by
    intro fd
    show total Obj.descriptors (s.eventNew type).mem (s.nextEvent + 1) fd +
      min 1 (s.closed.count fd) ≤ s.opened.count fd
    rw [total_eventNew hm]
    exact h.held fd
  opened := h.opened
  released := h.released_update (.inr fun hi ↦ absurd (h.released _ hi).2 (lt_irrefl _))
    (Nat.le_succ _)

theorem eventFree (h : s.Tidy) (hm : s.Memory) (ho : s.mem i = some o) (he : o.Emptied) :
    (s.eventFree i o).Tidy := by
  have hheld : ∀ fd, total Obj.descriptors (s.eventFree i o).mem s.nextEvent fd +
      min 1 ((s.closed ++ o.freeCloses).count fd) ≤ s.opened.count fd := by
    intro fd
    have hheld := h.held fd
    have hfree := total_eventFree hm ho he fd
    rw [List.count_append]
    omega
  revert hheld
  unfold IoLoop.eventFree freeProactor
  dsimp only
  split
  · exact fun hheld ↦ ⟨hheld, h.opened, h.released_update (.inr (h.not_released ho)) le_rfl⟩
  · refine fun hheld ↦ ⟨hheld, h.opened, fun j hj ↦ ?_⟩
    rcases List.mem_append.mp hj with hj | hj
    · exact h.released_update (.inl rfl) le_rfl j hj
    · rw [List.mem_singleton.mp hj]
      exact ⟨Function.update_self .., hm.lt ho⟩

theorem swept {gone relisted : List ℕ} (h : s.Tidy) (hs : s.Swept gone relisted s')
    (hnodup : gone.Nodup) (hgone : ∀ j ∈ gone, ∃ o, s.mem j = some o ∧ o.Emptied ∧
      o.freeDefers = false) (hm : s.Memory) : s'.Tidy := by
  have hsum := hs.total_eq hm hnodup hgone
  rw [hs.eq]
  refine ⟨fun fd ↦ ?_, h.opened, fun j hj ↦ ?_⟩
  · show total Obj.descriptors s'.mem s.nextEvent fd +
      min 1 ((s.closed ++ gone.flatMap s.freeCloses).count fd) ≤ s.opened.count fd
    have hheld := h.held fd
    have hsum := hsum fd
    rw [List.count_append]
    omega
  · show s'.mem j = none ∧ j < s.nextEvent
    rcases List.mem_append.mp hj with hj | hj
    · obtain ⟨hnone, hlt⟩ := h.released j hj
      refine ⟨?_, hlt⟩
      by_cases hjg : j ∈ gone
      · exact hs.gone_mem j hjg
      · obtain ⟨n, hn⟩ := hs.links j hjg
        rw [hn, hnone, Option.map_none]
    · obtain ⟨o, ho, -⟩ := hgone j hj
      exact ⟨hs.gone_mem j hj, hm.lt ho⟩

theorem congr (h : s.Tidy) (hmem : s'.mem = s.mem)
    (hnext : (s'.nextEvent, s'.nextFd) = (s.nextEvent, s.nextFd))
    (hfds : (s'.opened, s'.closed) = (s.opened, s.closed)) (hreleased : s'.released = s.released) :
    s'.Tidy := by
  obtain ⟨hevent, hfd⟩ := Prod.mk.inj hnext
  obtain ⟨hopened, hclosed⟩ := Prod.mk.inj hfds
  refine ⟨?_, ?_, ?_⟩
  · rw [hopened, hclosed, hmem, hevent]
    exact h.held
  · rw [hopened, hfd]
    exact h.opened
  · rw [hreleased, hmem, hevent]
    exact h.released

end Tidy

theorem Tidy.dispatchTcp {t : Tcp} {d : Dir} {rest : List (ℕ × Dir)} {sys : Sys} (h : s.Tidy)
    (hord : s.Orderly) (hb : s.batch = (i, d) :: rest) (ho : s.mem i = some (.tcp t)) :
    (s.dispatchTcp i t d rest sys).Tidy := by
  have hout : Tcp.DispatchOutcome t d sys s.fresh _ _ _ := Tcp.dispatch_outcome d
  unfold IoLoop.dispatchTcp
  rcases hcb : t.tcpProactorCallback d sys s.fresh with ⟨t', client, effects⟩
  rw [hcb] at hout
  have hcedes : Cedes s.fresh (.tcp t) (.tcp t') client effects :=
    hout.cedes (hord.slot_of_dispatch hb ho) (hord.held_of_lost ho)
  have hdeliver : (s.deliver i d rest).Tidy := h.congr rfl rfl rfl rfl
  have hmemory : (s.deliver i d rest).Memory := hord.wf.memory.frame rfl rfl rfl rfl rfl
  exact (hdeliver.act hmemory ho hcedes .tcp).congr rfl rfl rfl rfl

/-- **Every step keeps the descriptors tidy**, whatever fails. -/
theorem Steps.tidy {a : Action} (hstep : s.Steps a s') (hord : s.Orderly) (h : s.Tidy) :
    s'.Tidy := by
  have hm := hord.wf.memory
  cases hstep with
  | new hp => exact h.eventNew hm _
  | free ho hf hp => exact h.eventFree hm ho (hord.emptied ho)
  | @tcp i t c sys ho hf hp hk =>
    have hout : Tcp.CallOutcome t s.nextOp sys s.fresh c _ _ _ := Tcp.run_outcome c
    exact (h.act hm ho (hout.transfer (hord.tcp i t ho).held_eq_nil).cedes _).congr rfl rfl rfl rfl
  | @udp i u c sys ho hf hp hk =>
    have hout : Udp.CallOutcome u s.nextOp s.fresh c (c.run u s.nextOp sys s.fresh).1 _ _ :=
      Udp.run_outcome c
    exact (h.act hm ho hout.transfer.cedes _).congr rfl rfl rfl rfl
  | @asyncStart i x sys ho hf hp =>
    exact (h.act hm ho (Async.start_transfer (hord.async i x ho)).cedes _).congr rfl rfl rfl rfl
  | @asyncSend i x written ho hf hstarted => exact h.put hm ho (Async.send_own written)
  | @timeoutFires i t d sys ho hp hactive =>
    have hout : Tcp.TimeoutOutcome t d sys _ _ := Tcp.timeout_outcome d
    exact (h.act hm ho hout.transfer.cedes _).congr rfl rfl rfl rfl
  | processEndgame hp hs =>
    obtain ⟨l, hl⟩ := hm.endgame
    obtain ⟨x, hx, -, hswept⟩ := hm.processEndgame hl
    obtain rfl := Option.some.inj (hs.symm.trans hx)
    exact (h.swept hswept (hl.nodup.filter _) (hord.emptied_of_judged hl) hm).congr rfl rfl rfl rfl
  | @offerTcp i t d sys reported offers hp ho hk =>
    have hout : Tcp.OfferOutcome t d sys s.fresh _ _ _ := Tcp.offer_outcome hk
    exact (h.act hm ho (hout.transfer (hord.held_of_offer hp ho)).cedes _).congr rfl rfl rfl rfl
  | @offerUdp i u d sys reported offers hp ho hk =>
    obtain ⟨cr, cw, hcb⟩ := Udp.reactorCb_eq u d sys
    have hput : (s.put i (.udp (u.reactorCb d sys).1)).Tidy :=
      h.put hm ho (by rw [hcb]; rfl)
    exact hput.congr rfl rfl rfl rfl
  | @offerAsync i x d sys reported offers hp ho hk hd =>
    have hput : (s.put i (.async (x.reactorCb sys))).Tidy :=
      h.put hm ho (Async.reactorCb_own sys)
    exact hput.congr rfl rfl rfl rfl
  | @dispatchTcp i t d rest sys hp hb ho => exact h.dispatchTcp hord hb ho
  | @dispatchUdp i u d rest sys hp hb ho =>
    have hdeliver : (s.deliver i d rest).Tidy := h.congr rfl rfl rfl rfl
    have hmemory : (s.deliver i d rest).Memory := hm.frame rfl rfl rfl rfl rfl
    exact (hdeliver.act hmemory ho (Udp.dispatch_outcome u d sys).transfer.cedes _).congr
      rfl rfl rfl rfl
  | @dispatchAsync i x d rest sys hp hb ho =>
    have hdeliver : (s.deliver i d rest).Tidy := h.congr rfl rfl rfl rfl
    have hmemory : (s.deliver i d rest).Memory := hm.frame rfl rfl rfl rfl rfl
    exact (hdeliver.act hmemory ho Async.dispatch_transfer.cedes _).congr rfl rfl rfl rfl
  | _ => exact h.congr rfl rfl rfl rfl

theorem tidy_of_reachable (h : Reachable step anyStep init s) : s.Memory ∧ s.Tidy := by
  have hboth : s.Orderly ∧ s.Tidy := by
    refine h.invariant (I := fun s ↦ s.Orderly ∧ s.Tidy) ⟨init_orderly, init_tidy⟩
      fun s a s' hs _ hstep ↦ ?_
    exact ⟨hs.1.step hstep, (step_eq_some hstep).tidy hs.1 hs.2⟩
  exact ⟨hboth.1.wf.memory, hboth.2⟩

/-! ## What is left after the loop has been freed -/

theorem Tidy.held_once (h : s.Tidy) (hi : i < s.nextEvent) {fd : ℕ}
    (hfd : fd ∈ heldAt Obj.descriptors (s.mem i)) :
    s.closed.count fd = 0 ∧ total Obj.descriptors s.mem s.nextEvent fd = 1 := by
  have hle := count_le_total Obj.descriptors s.mem fd hi
  have hpos := List.count_pos_iff.mpr hfd
  have hheld := h.held fd
  have hone : s.opened.count fd ≤ 1 := List.nodup_iff_count_le_one.mp h.opened.nodup fd
  omega

theorem total_descriptors (s : IoLoop) (fd : ℕ) :
    total Obj.descriptors s.mem s.nextEvent fd =
      total Obj.own s.mem s.nextEvent fd + total Obj.parked s.mem s.nextEvent fd :=
  total_eq_add fun o ↦ o.count_descriptors fd

namespace Enforced

theorem count_closed_le (h : s.Enforced l s') (hm : s.Memory) (hl : s.Endgame l) (fd : ℕ) :
    s'.closed.count fd ≤ s.closed.count fd + total Obj.own s.mem s.nextEvent fd := by
  have hremove : total Obj.own
      (fun j ↦ if j ∈ l.filter fun j ↦ !s.notified j then none else s.mem j) s.nextEvent fd +
        ((l.filter fun j ↦ !s.notified j).flatMap fun j ↦ heldAt Obj.own (s.mem j)).count fd =
      total Obj.own s.mem s.nextEvent fd := by
    refine total_remove Obj.own s.mem fd (hl.nodup.filter _) (fun j hj ↦ ?_)
      (fun j hj ↦ if_pos hj) fun j hj ↦ by rw [if_neg hj]
    obtain ⟨x, hx, -⟩ := hl.deleted j (List.mem_of_mem_filter hj)
    exact hm.lt hx
  rw [h.closed, List.count_append]
  omega

theorem count_closed_pos (h : s.Enforced l s') (hi : i ∈ l) (hsent : s.notified i = false) {fd : ℕ}
    (hfd : fd ∈ heldAt Obj.own (s.mem i)) : 0 < s'.closed.count fd := by
  rw [h.closed, List.count_append]
  refine Nat.add_pos_right _ (List.count_pos_iff.mpr (List.mem_flatMap.mpr ⟨i, ?_, hfd⟩))
  exact List.mem_filter.mpr ⟨hi, by rw [hsent]; rfl⟩

/-- An event of the list without anything that the flags do not tell of is released once, and what
it held is closed once. -/
theorem tornDown (h : s.Enforced l s') (hm : s.Memory) (ht : s.Tidy) (hl : s.Endgame l)
    (hi : i ∈ l) (hsent : s.notified i = false) (hparked : s.parked i = []) : s.TornDown i s' := by
  obtain ⟨o, ho, -⟩ := hl.deleted i hi
  have hgone : i ∈ l.filter fun j ↦ !s.notified j :=
    List.mem_filter.mpr ⟨hi, by rw [hsent]; rfl⟩
  refine ⟨h.gone i hi hsent, ?_, fun fd hfd ↦ ?_⟩
  · rw [h.released, List.count_append, List.count_eq_zero.mpr (ht.not_released ho),
      List.count_eq_one_of_mem (hl.nodup.filter _) hgone]
  · obtain ⟨hclosed, hone⟩ := ht.held_once (hm.lt ho) hfd
    have hown : fd ∈ heldAt Obj.own (s.mem i) := by
      have hsplit := o.count_descriptors fd
      rw [parked, ho, heldAt] at hparked
      rw [ho, heldAt, ← List.count_pos_iff] at hfd ⊢
      rw [hparked, List.count_nil, Nat.add_zero] at hsplit
      rwa [hsplit] at hfd
    have hpos := h.count_closed_pos hi hsent hown
    have hle := h.count_closed_le hm hl fd
    have hsplit := s.total_descriptors fd
    omega

/-- An event that was sent to is not released by the pass, and was not released before. -/
theorem not_notified_of_tornDown (h : s.Enforced l s') (ht : s.Tidy) (hl : s.Endgame l)
    (hi : i ∈ l) (htorn : s.TornDown i s') : s.notified i = false := by
  obtain ⟨o, ho, -⟩ := hl.deleted i hi
  have hone := htorn.released
  rw [h.released, List.count_append, List.count_eq_zero.mpr (ht.not_released ho),
    Nat.zero_add] at hone
  have hmem := List.count_pos_iff.mp (hone ▸ Nat.zero_lt_one)
  have hnot := (List.mem_filter.mp hmem).2
  rwa [Bool.not_eq_true'] at hnot

/-- No event owns a descriptor that waits in an event, so the pass does not close it. -/
theorem parked_of_tornDown (h : s.Enforced l s') (hm : s.Memory) (ht : s.Tidy) (hl : s.Endgame l)
    (hi : i ∈ l) (htorn : s.TornDown i s') : s.parked i = [] := by
  obtain ⟨o, ho, -⟩ := hl.deleted i hi
  refine List.eq_nil_iff_forall_not_mem.mpr fun fd hfd ↦ ?_
  have hheld : fd ∈ heldAt Obj.descriptors (s.mem i) := by
    rw [parked, ho, heldAt] at hfd
    rw [ho, heldAt]
    exact o.parked_subset hfd
  obtain ⟨hclosed, hone⟩ := ht.held_once (hm.lt ho) hheld
  have hwaits := count_le_total Obj.parked s.mem fd (hm.lt ho)
  have hpos : 0 < (heldAt Obj.parked (s.mem i)).count fd := List.count_pos_iff.mpr hfd
  have hle := h.count_closed_le hm hl fd
  have hsplit := s.total_descriptors fd
  have hclosed' := htorn.closed fd hheld
  omega

end Enforced

/-- **Freeing the loop empties the list** in every state that the loop can be in, and it tears down
an event on the list if and only if the event has neither an undelivered notification nor an
accepted descriptor that waits for its completion. -/
theorem nanoevLoopFree_tornDown (h : Reachable step anyStep init s) :
    ∃ l s', s.Endgame l ∧ s.nanoevLoopFree = some s' ∧ s'.endgameHead = none ∧
      ∀ i ∈ l, s.TornDown i s' ↔ s.notified i = false ∧ s.parked i = [] := by
  obtain ⟨hm, ht⟩ := tidy_of_reachable h
  obtain ⟨l, hl⟩ := hm.endgame
  obtain ⟨s', hs', henforced⟩ := hm.nanoevLoopFree hl
  refine ⟨l, s', hl, hs', henforced.list, fun i hi ↦ ⟨fun htorn ↦ ⟨?_, ?_⟩, fun hi' ↦ ?_⟩⟩
  · exact henforced.not_notified_of_tornDown ht hl hi htorn
  · exact henforced.parked_of_tornDown hm ht hl hi htorn
  · exact henforced.tornDown hm ht hl hi hi'.1 hi'.2

/-- A listener, a UDP event and a connecting TCP event are freed with an operation pending. -/
def freedPending : List Action :=
  [.new .tcp, .new .udp, .new .tcp, .tcp 0 (.listen true) (.ok 0),
    .tcp 0 (.accept none true true) { Sys.ok 0 with accept := .wouldBlock },
    .udp 1 (.bind ⟨2, 7⟩) (.ok 0), .udp 1 (.read ⟨1, 8⟩ true) (.ok 0),
    .tcp 2 (.connect true none true) { Sys.ok 0 with connect := .inProgress }, .free 0, .free 1,
    .free 2]

theorem nanoevLoopFree_tornDown_freedPending :
    ∃ s s', exec step anyStep init freedPending = some s ∧ s.phase = .idle ∧
      s.Endgame [2, 1, 0] ∧ s.nanoevLoopFree = some s' ∧ s'.endgameHead = none ∧
      s.TornDown 0 s' ∧ s.TornDown 1 s' ∧ s.TornDown 2 s' := by
  have hrun : ((exec step anyStep init freedPending).map fun s ↦
      (s.phase, [s.endgameHead, s.nextOf 2, s.nextOf 1, s.nextOf 0],
        [2, 1, 0].map s.notified, [2, 1, 0].map s.parked)) =
      some (.idle, [some 2, some 1, some 0, none], [false, false, false], [[], [], []]) := by
    decide +kernel
  obtain ⟨s, hs, hfields⟩ := Option.map_eq_some_iff.mp hrun
  simp only [Prod.mk.injEq, List.map_cons, List.map_nil, List.cons.injEq, and_true] at hfields
  obtain ⟨hphase, ⟨hhead, h₂, h₁, h₀⟩, ⟨hn₂, hn₁, hn₀⟩, hp₂, hp₁, hp₀⟩ := hfields
  obtain ⟨l, s', hl, hs', hlist, htorn⟩ := nanoevLoopFree_tornDown (Reachable.of_exec hs)
  have hchain : Chain s.nextOf s.endgameHead [2, 1, 0] none := ⟨hhead, h₂, h₁, h₀⟩
  obtain rfl := hl.chain.unique hchain
  exact ⟨s, s', hs, hphase, hl, hs', hlist, (htorn 0 (by decide)).mpr ⟨hn₀, hp₀⟩,
    (htorn 1 (by decide)).mpr ⟨hn₁, hp₁⟩, (htorn 2 (by decide)).mpr ⟨hn₂, hp₂⟩⟩

/-- An async event is freed before the notification that was sent to it is delivered. -/
def freedNotified : List Action :=
  [.new .async, .asyncStart 0 (.ok 0), .asyncSend 0 true, .free 0]

/-- A listener is freed before a connection that it has accepted is passed to the client. -/
def freedAccepted : List Action :=
  [.new .tcp, .tcp 0 (.listen true) (.ok 0), .tcp 0 (.accept none true true) (.ok 0), .free 0]

/-- After the loop has been freed, the async event is not on the list and has neither been released
nor closed its pipe. The listener has been released, and the descriptor of the connection is still
open, with nothing that refers to it. -/
theorem exists_not_tornDown :
    (∃ s s', exec step anyStep init freedNotified = some s ∧ s.phase = .idle ∧ s.Endgame [0] ∧
      s.nanoevLoopFree = some s' ∧ s'.endgameHead = none ∧ (s'.mem 0).isSome = true ∧
      s'.released = [] ∧ s'.opened = [3, 4] ∧ s'.closed = [] ∧ ¬s.TornDown 0 s') ∧
    ∃ s s', exec step anyStep init freedAccepted = some s ∧ s.phase = .idle ∧ s.Endgame [0] ∧
      s.nanoevLoopFree = some s' ∧ s.parked 0 = [5] ∧ s'.released = [0] ∧ s'.opened = [3, 5] ∧
      s'.closed = [3] ∧ ¬s.TornDown 0 s' := by
  constructor
  · have hrun : ((exec step anyStep init freedNotified).bind fun s ↦ s.nanoevLoopFree.map fun s' ↦
        (s.phase, [s.endgameHead, s.nextOf 0, s'.endgameHead], (s'.mem 0).isSome,
          [s'.released, s'.opened, s'.closed])) =
        some (.idle, [some 0, none, none], true, [[], [3, 4], []]) := by decide +kernel
    obtain ⟨s, hs, hfields⟩ := Option.bind_eq_some_iff.mp hrun
    obtain ⟨s', hs', hfields⟩ := Option.map_eq_some_iff.mp hfields
    simp only [Prod.mk.injEq, List.cons.injEq, and_true] at hfields
    obtain ⟨hphase, ⟨hhead, hnext, hhead'⟩, hmem', hreleased, hopened, hclosed⟩ := hfields
    obtain ⟨l, hl⟩ := (wf_of_reachable (Reachable.of_exec hs)).memory.endgame
    have hchain : Chain s.nextOf s.endgameHead [0] none := ⟨hhead, hnext⟩
    obtain rfl := hl.chain.unique hchain
    refine ⟨s, s', hs, hphase, hl, hs', hhead', hmem', hreleased, hopened, hclosed, fun htorn ↦ ?_⟩
    rw [htorn.memory] at hmem'
    cases hmem'
  · have hrun : ((exec step anyStep init freedAccepted).bind fun s ↦ s.nanoevLoopFree.map fun s' ↦
        (s.phase, [s.endgameHead, s.nextOf 0], s.parked 0,
          [s'.released, s'.opened, s'.closed])) =
        some (.idle, [some 0, none], [5], [[0], [3, 5], [3]]) := by decide +kernel
    obtain ⟨s, hs, hfields⟩ := Option.bind_eq_some_iff.mp hrun
    obtain ⟨s', hs', hfields⟩ := Option.map_eq_some_iff.mp hfields
    simp only [Prod.mk.injEq, List.cons.injEq, and_true] at hfields
    obtain ⟨hphase, ⟨hhead, hnext⟩, hparked, hreleased, hopened, hclosed⟩ := hfields
    obtain ⟨l, hl⟩ := (wf_of_reachable (Reachable.of_exec hs)).memory.endgame
    have hchain : Chain s.nextOf s.endgameHead [0] none := ⟨hhead, hnext⟩
    obtain rfl := hl.chain.unique hchain
    refine ⟨s, s', hs, hphase, hl, hs', hparked, hreleased, hopened, hclosed, fun htorn ↦ ?_⟩
    obtain ⟨o, ho, -⟩ := hl.deleted 0 (List.mem_singleton_self 0)
    have hheld : 5 ∈ heldAt Obj.descriptors (s.mem 0) := by
      rw [parked, ho, heldAt] at hparked
      rw [ho, heldAt]
      exact o.parked_subset (by rw [hparked]; exact List.mem_singleton_self 5)
    have hone := htorn.closed 5 hheld
    rw [hclosed] at hone
    cases hone

end IoLoop

end Nanoev
