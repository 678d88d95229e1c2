import Nanoev.Io.LoopInvariant
import Nanoev.Io.TcpInvariant
import Mathlib.Data.List.Count

/-!
# What a step of the loop does to one event

A step of the loop works on one event at most, apart from the pass over the deferred deletions,
which changes links and releases memory, and from the poller, which moves completions from its queue
to the batch. `Local` lists, for an event of any type, what a step can do to its memory and to the
numbers of its completions in the queue and in the batch.

For a TCP event these are the steps of the machine `TcpStep`, so what that machine keeps holds for
every TCP event of the loop (`TcpInv.step`).
-/

namespace Nanoev

open Transition

/-! ## Nothing is submitted outside of the calls -/

theorem Tcp.callUnless_submitted (deleted : Bool) (c : Call) :
    (Tcp.callUnless deleted c).filterMap IoEffect.submitted? = [] := by
  cases deleted <;> rfl

theorem Tcp.closeAccepted_submitted (slot : Option ℕ) :
    (Tcp.closeAccepted slot).filterMap IoEffect.submitted? = [] := by
  cases slot <;> rfl

theorem Tcp.closing_submitted (k : Option Socket) :
    (Tcp.closing k).filterMap IoEffect.submitted? = [] := by
  cases k <;> rfl

theorem assertEffect_submitted (holds : Bool) :
    (assertEffect holds).filterMap IoEffect.submitted? = [] := by
  cases holds <;> rfl

theorem Tcp.AcceptOutcome.submitted {alloc : Bool} {slot : Option ℕ} {status : ℤ} {op : ℕ}
    {sys : Sys}
    {fresh : Fresh} {client : Option Tcp} {effects : List IoEffect}
    (h : AcceptOutcome alloc slot status op sys fresh client effects) :
    effects.filterMap IoEffect.submitted? = [] := by
  cases h <;> cases alloc <;> cases slot <;> rfl

theorem Tcp.DispatchOutcome.submitted {t t' : Tcp} {d : Dir} {sys : Sys} {fresh : Fresh}
    {client : Option Tcp} {effects : List IoEffect}
    (h : DispatchOutcome t d sys fresh t' client effects) :
    effects.filterMap IoEffect.submitted? = [] := by
  cases h with
  | readDone | writeDone | connectFailed => exact callUnless_submitted ..
  | acceptDone => exact (acceptClient_outcome ..).submitted
  | acceptDropped | acceptStale => exact closeAccepted_submitted _
  | _ => rfl

theorem Tcp.TimeoutOutcome.submitted {t t' : Tcp} {d : Dir} {sys : Sys} {effects : List IoEffect}
    (h : TimeoutOutcome t d sys t' effects) : effects.filterMap IoEffect.submitted? = [] := by
  cases h with
  | readIgnored | writeIgnored => rfl
  | _ => rw [List.filterMap_append, closing_submitted, callUnless_submitted, List.append_nil]

theorem Udp.callAsserted_submitted (callback : Option ℕ) (deleted : Bool) (status : ℤ)
    (buf bytes : ℕ) :
    (Udp.callAsserted callback deleted status buf bytes).filterMap IoEffect.submitted? = [] := by
  cases deleted <;> cases callback <;> rfl

theorem Udp.udpProactorCallback_submitted (u : Udp) (d : Dir) (sys : Sys) :
    (u.udpProactorCallback d sys).2.filterMap IoEffect.submitted? = [] := by
  cases d <;>
    exact (List.filterMap_append).trans
      (by rw [assertEffect_submitted, callAsserted_submitted]; rfl)

theorem Async.nanoevAsyncStart_submitted (x : Async) (op : ℕ) (sys : Sys) (fresh : Fresh) :
    (x.nanoevAsyncStart op sys fresh).2.1.filterMap IoEffect.submitted? = [] := by
  unfold nanoevAsyncStart
  split
  · rfl
  · dsimp only
    split
    · rfl
    · split
      · rfl
      · rfl
      · split
        · rfl
        · rw [List.filterMap_append, assertEffect_submitted]
          rfl

theorem Async.asyncProactorCallback_submitted (x : Async) :
    x.asyncProactorCallback.2.filterMap IoEffect.submitted? = [] := by
  unfold asyncProactorCallback
  dsimp only
  split
  · cases x.onAsync <;> rfl
  · rfl

namespace IoLoop

/-- The number of completions of a direction of an event in the queue of the poller. -/
def queued (s : IoLoop) (i : ℕ) (d : Dir) : ℕ := s.queue.count (i, d)

/-- The number of completions of a direction of an event in the batch. -/
def batched (s : IoLoop) (i : ℕ) (d : Dir) : ℕ := s.batch.count (i, d)

/-- The completions of an event that are on the way stay where they are, and so does the record of
the buffer of its pending read. -/
structure Still (s s' : IoLoop) (j : ℕ) : Prop where
  queued : s'.queued j = s.queued j
  batched : s'.batched j = s.batched j
  pending : s'.udpPending j = s.udpPending j

theorem mem_under_way {s : IoLoop} {i : ℕ} {d : Dir} :
    (i, d) ∈ s.queue ++ s.batch ↔ 0 < s.queued i d + s.batched i d := by
  rw [← List.count_pos_iff, List.count_append, queued, batched]

theorem Still.count_le {s s' : IoLoop} {j : ℕ} (h : s.Still s' j) (d : Dir) :
    s'.queued j d + s'.batched j d ≤ s.queued j d + s.batched j d := by
  rw [h.queued, h.batched]

def startedRead : UdpCall → RetCode → Option IoBuf
  | .read b _, .success => some b
  | _, _ => none

/-- What the action `a`, leading from `s` to `s'`, does to event `j`. -/
inductive Local (s : IoLoop) (a : Action) (s' : IoLoop) (j : ℕ) : Prop
  | untouched (hmem : s'.mem j = s.mem j) (hstill : s.Still s' j)
  | created {o : Obj} (hnone : s.mem j = none) (ho' : s'.mem j = some o)
      (hnew : (∃ type, o = .new type) ∨ ∃ u fd, o = .tcp (.client u fd))
      (hq : s'.queued j = fun _ ↦ 0) (hb : s'.batched j = fun _ ↦ 0)
  | released (hnone : s'.mem j = none) (hidle : ∀ o, s.mem j = some o → o.freeDefers = false)
      (hcount : ∀ d, s'.queued j d + s'.batched j d ≤ s.queued j d + s.batched j d)
  | polled (ha : a = .takeQueued) (hmem : s'.mem j = s.mem j) (hbatch : ∀ d, s.batched j d = 0)
      (hmoved : ∀ d, s'.queued j d + s'.batched j d = s.queued j d)
      (hpending : s'.udpPending j = s.udpPending j)
  | linked {o : Obj} {n : Option ℕ} (ha : a = .processEndgame) (ho : s.mem j = some o)
      (ho' : s'.mem j = some (o.withNext n)) (hstill : s.Still s' j)
  | freed {o : Obj} {n : Option ℕ} (ha : a = .free j) (ho : s.mem j = some o)
      (hf : s.freed j = false) (hdefers : o.freeDefers = true)
      (ho' : s'.mem j =
        some (o.freed.setProactor { o.freed.proactor with deleted := true, next := n }))
      (hstill : s.Still s' j)
  | tcpCall {t t' : Tcp} {c sys effects ret} (ha : a = .tcp j c sys) (ho : s.mem j = some (.tcp t))
      (hf : s.freed j = false) (hk : c.kernel sys = true)
      (hout : Tcp.CallOutcome t s.nextOp sys s.fresh c t' effects ret)
      (ho' : s'.mem j = some (.tcp t'))
      (hq : s'.queued j = fun d ↦ s.queued j d + submits effects d)
      (hb : s'.batched j = s.batched j)
  | tcpTimeout {t t' : Tcp} {d sys effects} (ha : a = .timeoutFires j d sys)
      (ho : s.mem j = some (.tcp t)) (hactive : (t.timeout d).active = true)
      (hbatch : ∀ d, s.batched j d = 0) (hout : Tcp.TimeoutOutcome t d sys t' effects)
      (ho' : s'.mem j = some (.tcp t')) (hstill : s.Still s' j)
  | tcpOffer {t t' : Tcp} {d sys completed effects} (ha : a = .offer sys)
      (ho : s.mem j = some (.tcp t)) (hnone : s.queued j d = 0 ∧ s.batched j d = 0)
      (hout : Tcp.OfferOutcome t d sys s.fresh t' completed effects)
      (ho' : s'.mem j = some (.tcp t')) (hq : s'.queued j = s.queued j)
      (hb : s'.batched j =
        Function.update (s.batched j) d (s.batched j d + if completed then 1 else 0))
      (hp : ∃ reported offers, s.phase = .polling reported ((j, d) :: offers))
      (hroom : s.batch.length < maxEvents)
  | tcpDispatch {t t' : Tcp} {d sys client effects} (ha : a = .dispatch sys)
      (ho : s.mem j = some (.tcp t)) (hbatch : 0 < s.batched j d)
      (hout : Tcp.DispatchOutcome t d sys s.fresh t' client effects)
      (ho' : s'.mem j = some (.tcp t')) (hq : s'.queued j = s.queued j)
      (hb : s'.batched j = Function.update (s.batched j) d (s.batched j d - 1))
  | udpCall {u u' : Udp} {c sys effects ret} (ha : a = .udp j c sys) (ho : s.mem j = some (.udp u))
      (hf : s.freed j = false) (hout : Udp.CallOutcome u s.nextOp s.fresh c u' effects ret)
      (ho' : s'.mem j = some (.udp u'))
      (hq : s'.queued j = fun d ↦ s.queued j d + submits effects d)
      (hb : s'.batched j = s.batched j)
      (hpending : s'.udpPending j = (startedRead c ret).or (s.udpPending j))
  | udpOffer {u : Udp} {d sys reported offers} (ha : a = .offer sys)
      (hp : s.phase = .polling reported ((j, d) :: offers)) (ho : s.mem j = some (.udp u))
      (hnone : s.queued j d = 0 ∧ s.batched j d = 0)
      (ho' : s'.mem j = some (.udp (u.reactorCb d sys).1)) (hq : s'.queued j = s.queued j)
      (hb : s'.batched j = Function.update (s.batched j) d
        (s.batched j d + if (u.reactorCb d sys).2 then 1 else 0))
      (hpending : s'.udpPending j = s.udpPending j)
  | udpDispatch {u : Udp} {d sys rest} (ha : a = .dispatch sys) (ho : s.mem j = some (.udp u))
      (hbatch : s.batch = (j, d) :: rest)
      (ho' : s'.mem j = some (.udp (u.udpProactorCallback d sys).1))
      (hq : s'.queued j = s.queued j)
      (hb : s'.batched j = Function.update (s.batched j) d (s.batched j d - 1))
      (hpending : s'.udpPending j = if d = .read then none else s.udpPending j)
  | asyncStart {x : Async} {op sys fresh} (ho : s.mem j = some (.async x)) (hf : s.freed j = false)
      (ho' : s'.mem j = some (.async (x.nanoevAsyncStart op sys fresh).1)) (hstill : s.Still s' j)
  | asyncSend {x : Async} {written} (ho : s.mem j = some (.async x)) (hf : s.freed j = false)
      (ho' : s'.mem j = some (.async (x.nanoevAsyncSend written).1)) (hstill : s.Still s' j)
  | asyncOffer {x : Async} {sys reported offers}
      (hp : s.phase = .polling reported ((j, .read) :: offers)) (ho : s.mem j = some (.async x))
      (hk : x.reactorKernel sys = true) (hnone : s.queued j .read = 0 ∧ s.batched j .read = 0)
      (ho' : s'.mem j = some (.async (x.reactorCb sys))) (hq : s'.queued j = s.queued j)
      (hb : s'.batched j = Function.update (s.batched j) .read (s.batched j .read + 1))
  | asyncDispatch {x : Async} {d sys rest} (ha : a = .dispatch sys) (ho : s.mem j = some (.async x))
      (hbatch : s.batch = (j, d) :: rest)
      (ho' : s'.mem j = some (.async x.asyncProactorCallback.1)) (hq : s'.queued j = s.queued j)
      (hb : s'.batched j = Function.update (s.batched j) d (s.batched j d - 1))

/-! ## Counting -/

section Count

variable {i j : ℕ} {d e : Dir} {q : List (ℕ × Dir)} {l : List Dir}

theorem count_map_of_ne (h : j ≠ i) : (l.map fun d ↦ (i, d)).count (j, e) = 0 := by
  rw [List.count_eq_zero, List.mem_map]
  rintro ⟨x, -, hx⟩
  exact h (Prod.mk.inj hx).1.symm

theorem count_map_self : (l.map fun d ↦ (i, d)).count (i, e) = l.count e :=
  List.count_map_of_injective l _ (fun _ _ h ↦ (Prod.mk.inj h).2) e

theorem count_completion (completed : Bool) :
    (completion i d completed).count (i, e) =
      if e = d then (if completed then 1 else 0) else 0 := by
  cases completed with
  | false => simp [completion]
  | true =>
    rw [completion, if_pos rfl, List.count_singleton]
    by_cases h : e = d
    · simp [h]
    · simp [h, Ne.symm h]

theorem count_completion_of_ne (h : j ≠ i) (completed : Bool) :
    (completion i d completed).count (j, e) = 0 := by
  cases completed with
  | false => rfl
  | true =>
    rw [completion, if_pos rfl, List.count_singleton]
    simp [Ne.symm h]

end Count

variable {s s' : IoLoop} {a : Action} {i j : ℕ} {d : Dir} {l : List Dir}
  {rest : List (ℕ × Dir)} {completed : Bool}

theorem queued_of_submit (hq : s'.queue = s.queue ++ l.map fun d ↦ (i, d)) :
    s'.queued i = fun d ↦ s.queued i d + l.count d := by
  funext e
  rw [queued, hq, List.count_append, count_map_self, queued]

theorem queued_of_submit_ne (hj : j ≠ i) (hq : s'.queue = s.queue ++ l.map fun d ↦ (i, d)) :
    s'.queued j = s.queued j := by
  funext e
  rw [queued, hq, List.count_append, count_map_of_ne hj, Nat.add_zero, queued]

theorem queued_congr (hq : s'.queue = s.queue) : s'.queued j = s.queued j := by
  funext e
  rw [queued, hq, queued]

theorem batched_congr (hb : s'.batch = s.batch) : s'.batched j = s.batched j := by
  funext e
  rw [batched, hb, batched]

theorem batched_of_completion (hb : s'.batch = s.batch ++ completion i d completed) :
    s'.batched i =
      Function.update (s.batched i) d (s.batched i d + if completed then 1 else 0) := by
  funext e
  rw [batched, hb, List.count_append, count_completion, Function.update_apply]
  by_cases he : e = d
  · rw [if_pos he, if_pos he, he, batched]
  · rw [if_neg he, if_neg he, batched, Nat.add_zero]

theorem batched_of_completion_ne (hj : j ≠ i)
    (hb : s'.batch = s.batch ++ completion i d completed) : s'.batched j = s.batched j := by
  funext e
  rw [batched, hb, List.count_append, count_completion_of_ne hj, Nat.add_zero, batched]

theorem batched_of_take (hb : s.batch = (i, d) :: rest) (hb' : s'.batch = rest) :
    s'.batched i = Function.update (s.batched i) d (s.batched i d - 1) := by
  funext e
  rw [batched, hb', Function.update_apply, batched, batched, hb]
  by_cases he : e = d
  · rw [if_pos he, he, List.count_cons_self, Nat.add_sub_cancel]
  · rw [if_neg he, List.count_cons_of_ne (by simp [Ne.symm he])]

theorem batched_of_take_ne (hj : j ≠ i) (hb : s.batch = (i, d) :: rest) (hb' : s'.batch = rest) :
    s'.batched j = s.batched j := by
  funext e
  rw [batched, hb', batched, hb, List.count_cons_of_ne (by simp [Ne.symm hj])]

theorem batched_pos (hb : s.batch = (i, d) :: rest) : 0 < s.batched i d := by
  rw [batched, hb, List.count_cons_self]
  exact Nat.succ_pos _

theorem Traffic.queued_eq_zero (h : s.Traffic) (hj : s.nextEvent ≤ j) : s.queued j d = 0 := by
  rw [queued, List.count_eq_zero]
  exact fun hmem ↦ absurd (h.queue_lt _ hmem) (Nat.not_lt.mpr hj)

theorem Traffic.batched_eq_zero (h : s.Traffic) (hj : s.nextEvent ≤ j) : s.batched j d = 0 := by
  rw [batched, List.count_eq_zero]
  exact fun hmem ↦ absurd (h.batch_lt _ hmem) (Nat.not_lt.mpr hj)

theorem batched_of_batch_nil (h : s.batch = []) : s.batched j d = 0 := by
  rw [batched, h, List.count_nil]

theorem Offering.none_under_way {reported : List ℕ} {offers : List (ℕ × Dir)}
    (h : s.Offering reported ((i, d) :: offers)) : s.queued i d = 0 ∧ s.batched i d = 0 := by
  constructor
  · rw [queued, h.queue, List.count_nil]
  · rw [batched, List.count_eq_zero]
    exact fun hmem ↦ (h.completed _ hmem).2 List.mem_cons_self

/-! ## The effects of the steps -/

namespace Local

theorem of_frame (hmem : s'.mem = s.mem) (hq : s'.queue = s.queue) (hb : s'.batch = s.batch)
    (hp : s'.udpPending = s.udpPending) : s.Local a s' j :=
  .untouched (congrFun hmem j) ⟨queued_congr hq, batched_congr hb, congrFun hp j⟩

theorem of_put_ne {x : Option Obj} (hj : j ≠ i) (hmem : s'.mem = Function.update s.mem i x)
    (hq : s'.queue = s.queue ++ l.map fun d ↦ (i, d)) (hb : s'.batched j = s.batched j)
    (hp : s'.udpPending j = s.udpPending j) : s.Local a s' j := by
  refine .untouched ?_ ⟨queued_of_submit_ne hj hq, hb, hp⟩
  rw [hmem, Function.update_of_ne hj]

theorem new (hw : s.Wf) (type : EventType) (j : ℕ) : s.Local (.new type) (s.eventNew type) j := by
  by_cases hj : j = s.nextEvent
  · subst hj
    refine .created (hw.memory.mem_lt le_rfl) (Function.update_self ..) (.inl ⟨type, rfl⟩) ?_ ?_
    · exact funext fun d ↦ hw.traffic.queued_eq_zero le_rfl
    · exact funext fun d ↦ hw.traffic.batched_eq_zero le_rfl
  · exact .untouched (Function.update_of_ne hj _ _) ⟨rfl, rfl, rfl⟩

theorem eventFree_mem (s : IoLoop) (i : ℕ) (o : Obj) :
    (s.eventFree i o).mem = Function.update s.mem i
      (if o.freeDefers then
        some (o.freed.setProactor { o.freed.proactor with deleted := true, next := s.endgameHead })
      else none) := by
  unfold eventFree freeProactor
  dsimp only
  split <;> rfl

theorem free {o : Obj} (ho : s.mem i = some o) (hf : s.freed i = false) (j : ℕ) :
    s.Local (.free i) (s.eventFree i o) j := by
  obtain ⟨hq, hb, -, -, hp⟩ := Wf.freeProactor_traffic (s := s) i o
  have hstill : s.Still (s.eventFree i o) j :=
    ⟨queued_congr hq, batched_congr hb, congrFun hp j⟩
  have hmem := congrFun (eventFree_mem s i o) j
  by_cases hj : j = i
  · subst hj
    rw [Function.update_self] at hmem
    split at hmem
    · next hdefers => exact .freed rfl ho hf hdefers hmem hstill
    · next hdefers =>
      refine .released hmem (fun x hx ↦ ?_) hstill.count_le
      obtain rfl := Option.some.inj (ho.symm.trans hx)
      exact Bool.eq_false_of_not_eq_true hdefers
  · rw [Function.update_of_ne hj] at hmem
    exact .untouched hmem hstill

theorem swept {gone relisted : List ℕ} {x : IoLoop} (hs : s.Swept gone relisted x)
    (hgone : ∀ j ∈ gone, ∀ o, s.mem j = some o → o.freeDefers = false) (j : ℕ) :
    s.Local .processEndgame { x with phase := .waiting } j := by
  have hstill : s.Still { x with phase := .waiting } j := by
    refine ⟨queued_congr ?_, batched_congr ?_, congrFun ?_ j⟩ <;> rw [hs.eq]
  by_cases hj : j ∈ gone
  · exact .released (hs.gone_mem j hj) (hgone j hj) hstill.count_le
  · obtain ⟨n, hn⟩ := hs.links j hj
    cases ho : s.mem j with
    | none =>
      rw [ho] at hn
      exact .released hn (fun o ho' ↦ by rw [ho] at ho'; cases ho') hstill.count_le
    | some o =>
      rw [ho] at hn
      exact .linked rfl ho hn hstill

theorem takeQueued (hw : s.Wf) (hp : s.phase = .waiting) (j : ℕ) :
    s.Local .takeQueued
      { s with
        queue := s.queue.drop maxEvents, batch := s.queue.take maxEvents, phase := .dispatching }
      j := by
  refine .polled rfl rfl (fun d ↦ batched_of_batch_nil (hw.batch_of_phase hp rfl)) (fun d ↦ ?_) rfl
  rw [queued, batched, queued, Nat.add_comm, ← List.count_append, List.take_append_drop]

theorem tcp {t : Tcp} {c : TcpCall} {sys : Sys} (ho : s.mem i = some (.tcp t))
    (hf : s.freed i = false) (hk : c.kernel sys = true) (j : ℕ) :
    s.Local (.tcp i c sys) (s.tcpCall i t c sys) j := by
  by_cases hj : j = i
  · subst hj
    exact .tcpCall rfl ho hf hk (Tcp.run_outcome c) (Function.update_self ..)
      (queued_of_submit rfl) rfl
  · exact .of_put_ne hj rfl rfl rfl rfl

theorem udpPending_udpCall_self (s : IoLoop) (i : ℕ) (u : Udp) (c : UdpCall) (sys : Sys) :
    (s.udpCall i u c sys).udpPending i =
      (startedRead c (c.run u s.nextOp sys s.fresh).2.2).or (s.udpPending i) := by
  unfold IoLoop.udpCall
  rcases c.run u s.nextOp sys s.fresh with ⟨u', effects, ret⟩
  cases c <;> cases ret <;> first | rfl | exact Function.update_self ..

theorem udpPending_udpCall_ne {u : Udp} {c : UdpCall} {sys : Sys} (hj : j ≠ i) :
    (s.udpCall i u c sys).udpPending j = s.udpPending j := by
  unfold IoLoop.udpCall
  rcases c.run u s.nextOp sys s.fresh with ⟨u', effects, ret⟩
  cases c <;> cases ret <;> first | rfl | exact Function.update_of_ne hj _ _

theorem udp {u : Udp} {c : UdpCall} {sys : Sys} (ho : s.mem i = some (.udp u))
    (hf : s.freed i = false) (j : ℕ) : s.Local (.udp i c sys) (s.udpCall i u c sys) j := by
  by_cases hj : j = i
  · subst hj
    exact .udpCall rfl ho hf (Udp.run_outcome c) (Function.update_self ..)
      (queued_of_submit rfl) rfl (udpPending_udpCall_self ..)
  · exact .of_put_ne hj rfl rfl rfl (udpPending_udpCall_ne hj)

theorem timeoutFires {t : Tcp} {sys : Sys} (hw : s.Wf) (hp : s.phase = .timers)
    (ho : s.mem i = some (.tcp t)) (hactive : (t.timeout d).active = true) (j : ℕ) :
    s.Local (.timeoutFires i d sys) (s.timeoutFires i t d sys) j := by
  by_cases hj : j = i
  · subst hj
    have hout : Tcp.TimeoutOutcome t d sys _ _ := Tcp.timeout_outcome d
    have hq : (s.timeoutFires j t d sys).queue = s.queue := by
      show s.queue ++ ((t.timeoutFires d sys).2.filterMap IoEffect.submitted?).map _ = s.queue
      rw [hout.submitted, List.map_nil, List.append_nil]
    exact .tcpTimeout rfl ho hactive
      (fun d ↦ batched_of_batch_nil (hw.batch_of_phase hp rfl)) hout (Function.update_self ..)
      ⟨queued_congr hq, rfl, rfl⟩
  · exact .of_put_ne hj rfl rfl rfl rfl

theorem offerTcp {t : Tcp} {sys : Sys} {reported : List ℕ} {offers : List (ℕ × Dir)} (hw : s.Wf)
    (hp : s.phase = .polling reported ((i, d) :: offers)) (ho : s.mem i = some (.tcp t))
    (hk : t.reactorKernel d sys = true) (hroom : s.batch.length < maxEvents) (j : ℕ) :
    s.Local (.offer sys) { s.offerTcp i t d sys with phase := .polling reported offers } j := by
  by_cases hj : j = i
  · subst hj
    have hout : Tcp.OfferOutcome t d sys s.fresh _ _ _ := Tcp.offer_outcome hk
    have hq : (s.offerTcp j t d sys).queue = s.queue := by
      show s.queue ++ ((t.reactorCb d sys s.fresh).2.2.filterMap IoEffect.submitted?).map _ = _
      rw [hout.submits_nil, List.map_nil, List.append_nil]
    exact .tcpOffer rfl ho (hw.traffic.offering hp).none_under_way hout (Function.update_self ..)
      (queued_congr hq) (batched_of_completion rfl) ⟨reported, offers, hp⟩ hroom
  · exact .of_put_ne hj rfl rfl (batched_of_completion_ne hj rfl) rfl

theorem offerUdp {u : Udp} {sys : Sys} {reported : List ℕ} {offers : List (ℕ × Dir)} (hw : s.Wf)
    (hp : s.phase = .polling reported ((i, d) :: offers)) (ho : s.mem i = some (.udp u)) (j : ℕ) :
    s.Local (.offer sys) { s.offerUdp i u d sys with phase := .polling reported offers } j := by
  by_cases hj : j = i
  · subst hj
    exact .udpOffer rfl hp ho (hw.traffic.offering hp).none_under_way (Function.update_self ..) rfl
      (batched_of_completion rfl) rfl
  · exact .of_put_ne (l := []) hj rfl (List.append_nil _).symm (batched_of_completion_ne hj rfl) rfl

theorem dispatchTcp {t : Tcp} {sys : Sys} (hw : s.Wf) (hb : s.batch = (i, d) :: rest)
    (ho : s.mem i = some (.tcp t)) (j : ℕ) :
    s.Local (.dispatch sys) (s.dispatchTcp i t d rest sys) j := by
  have hout : Tcp.DispatchOutcome t d sys s.fresh _ _ _ := Tcp.dispatch_outcome d
  have hlt := hw.memory.lt ho
  unfold IoLoop.dispatchTcp
  rcases hcb : t.tcpProactorCallback d sys s.fresh with ⟨t', client, effects⟩
  rw [hcb] at hout
  have hq : s.queue ++ (effects.filterMap IoEffect.submitted?).map (fun d ↦ (i, d)) = s.queue := by
    rw [hout.submitted, List.map_nil, List.append_nil]
  have hi : ∀ x : IoLoop, x.mem i = some (.tcp t') →
      x.queue = s.queue ++ (effects.filterMap IoEffect.submitted?).map (fun d ↦ (i, d)) →
      x.batch = rest → s.Local (.dispatch sys) x i := fun x hx hxq hxb ↦
    .tcpDispatch rfl ho (batched_pos hb) hout hx (queued_congr (hxq.trans hq))
      (batched_of_take hb hxb)
  cases client with
  | none =>
    by_cases hj : j = i
    · subst hj
      exact hi _ (Function.update_self ..) rfl rfl
    · exact .of_put_ne hj rfl rfl (batched_of_take_ne hj hb rfl) rfl
  | some c =>
    obtain ⟨u, fd, rfl⟩ := hout.client_eq rfl
    by_cases hj : j = i
    · subst hj
      refine hi _ ?_ rfl rfl
      exact (Function.update_of_ne hlt.ne _ _).trans (Function.update_self ..)
    · by_cases hn : j = s.nextEvent
      · subst hn
        refine .created (hw.memory.mem_lt le_rfl) (Function.update_self ..)
          (.inr ⟨u, fd, rfl⟩) ?_ ?_
        · exact (queued_of_submit_ne hj rfl).trans
            (funext fun d ↦ hw.traffic.queued_eq_zero le_rfl)
        · exact (batched_of_take_ne hj hb rfl).trans
            (funext fun d ↦ hw.traffic.batched_eq_zero le_rfl)
      · refine .untouched ?_ ⟨queued_of_submit_ne hj rfl, batched_of_take_ne hj hb rfl, rfl⟩
        exact (Function.update_of_ne hn _ _).trans (Function.update_of_ne hj _ _)

theorem dispatchUdp {u : Udp} {sys : Sys} (hb : s.batch = (i, d) :: rest)
    (ho : s.mem i = some (.udp u)) (j : ℕ) :
    s.Local (.dispatch sys) (s.dispatchUdp i u d rest sys) j := by
  by_cases hj : j = i
  · subst hj
    have hq : (s.dispatchUdp j u d rest sys).queue = s.queue := by
      show s.queue ++ ((u.udpProactorCallback d sys).2.filterMap IoEffect.submitted?).map _ = _
      rw [Udp.udpProactorCallback_submitted, List.map_nil, List.append_nil]
    refine .udpDispatch rfl ho hb (Function.update_self ..) (queued_congr hq)
      (batched_of_take hb rfl) ?_
    show (if d = .read then Function.update s.udpPending j none else s.udpPending) j = _
    split
    · exact Function.update_self ..
    · rfl
  · refine .of_put_ne hj rfl rfl (batched_of_take_ne hj hb rfl) ?_
    show (if d = .read then Function.update s.udpPending i none else s.udpPending) j = _
    split
    · exact Function.update_of_ne hj _ _
    · rfl

end Local

/-- **Every step is local**: what it does to an event is in the list. -/
theorem Steps.local (hstep : s.Steps a s') (hw : s.Wf) (j : ℕ) : s.Local a s' j := by
  cases hstep with
  | new hp => exact .new hw _ j
  | free ho hf hp => exact .free ho hf j
  | tcp ho hf hp hk => exact .tcp ho hf hk j
  | udp ho hf hp hk => exact .udp ho hf j
  | @asyncStart i x sys ho hf hp =>
    by_cases hj : j = i
    · subst hj
      have hq : (s.asyncStart j x sys).queue = s.queue := by
        show s.queue ++ ((x.nanoevAsyncStart s.nextOp sys s.fresh).2.1.filterMap
          IoEffect.submitted?).map _ = _
        rw [Async.nanoevAsyncStart_submitted, List.map_nil, List.append_nil]
      exact .asyncStart ho hf (Function.update_self ..) ⟨queued_congr hq, rfl, rfl⟩
    · exact .of_put_ne hj rfl rfl rfl rfl
  | @asyncSend i x written ho hf hstarted =>
    by_cases hj : j = i
    · subst hj
      exact .asyncSend ho hf (Function.update_self ..) ⟨rfl, rfl, rfl⟩
    · exact .of_put_ne (l := []) hj rfl (List.append_nil _).symm rfl rfl
  | timeoutFires ho hp hactive => exact .timeoutFires hw hp ho hactive j
  | processEndgame hp hs =>
    -- one pass may release and relink any number of events, but each by its own verdict
    obtain ⟨l, hl⟩ := hw.memory.endgame
    obtain ⟨x, hx, -, hswept⟩ := hw.memory.processEndgame hl
    obtain rfl := Option.some.inj (hs.symm.trans hx)
    refine .swept hswept (fun i hi o ho ↦ ?_) j
    have hv := (List.mem_filter.mp hi).2
    rw [decide_eq_true_eq, verdict_eq ho] at hv
    exact Obj.freeDefers_of_release hv
  | takeQueued hp hq => exact .takeQueued hw hp j
  | offerTcp hp ho hk hroom => exact .offerTcp hw hp ho hk hroom j
  | offerUdp hp ho hk => exact .offerUdp hw hp ho j
  | @offerAsync i x d sys reported offers hp ho hk hd =>
    subst hd
    by_cases hj : j = i
    · subst hj
      have hb : (s.offerAsync j x .read sys).batched j = Function.update (s.batched j) .read
          (s.batched j .read + if true then 1 else 0) := batched_of_completion rfl
      exact .asyncOffer hp ho hk (hw.traffic.offering hp).none_under_way (Function.update_self ..)
        rfl hb
    · exact .of_put_ne (l := []) hj rfl (List.append_nil _).symm (batched_of_completion_ne hj rfl)
        rfl
  | dispatchTcp hp hb ho => exact .dispatchTcp hw hb ho j
  | dispatchUdp hp hb ho => exact .dispatchUdp hb ho j
  | @dispatchAsync i x d rest sys hp hb ho =>
    by_cases hj : j = i
    · subst hj
      have hq : (s.dispatchAsync j x d rest).queue = s.queue := by
        show s.queue ++ (x.asyncProactorCallback.2.filterMap IoEffect.submitted?).map _ = _
        rw [Async.asyncProactorCallback_submitted, List.map_nil, List.append_nil]
      exact .asyncDispatch rfl ho hb (Function.update_self ..) (queued_congr hq)
        (batched_of_take hb rfl)
    · exact .of_put_ne hj rfl rfl (batched_of_take_ne hj hb rfl) rfl
  | @dispatchNone i d rest sys hp hb ho =>
    by_cases hj : j = i
    · subst hj
      refine .released ho (fun o ho' ↦ by rw [ho] at ho'; cases ho') fun e ↦ ?_
      exact Nat.add_le_add_left (by rw [batched, batched, hb]; exact List.count_le_count_cons) _
    · exact .untouched rfl ⟨rfl, batched_of_take_ne hj hb rfl, rfl⟩
  | _ => exact .of_frame rfl rfl rfl rfl

/-! ## What frees and passes leave alone -/

/-- Freeing an event touches the memory, the list of deferred deletions and their records. -/
theorem eventFree_eq (s : IoLoop) (i : ℕ) (o : Obj) :
    s.eventFree i o =
      { s with
        mem := (s.eventFree i o).mem
        endgameHead := (s.eventFree i o).endgameHead
        released := (s.eventFree i o).released
        closed := (s.eventFree i o).closed
        freed := (s.eventFree i o).freed
        assertFailures := (s.eventFree i o).assertFailures } := by
  unfold eventFree freeProactor
  dsimp only
  split <;> rfl

theorem Wf.processEndgame_eq {x : IoLoop} (hw : s.Wf) (hx : s.processEndgameProactor = some x) :
    x =
      { s with
        mem := x.mem
        endgameHead := x.endgameHead
        released := x.released
        closed := x.closed
        assertFailures := x.assertFailures } := by
  obtain ⟨l, hl⟩ := hw.memory.endgame
  obtain ⟨y, hy, -, hswept⟩ := hw.memory.processEndgame hl
  obtain rfl := Option.some.inj (hx.symm.trans hy)
  rw [hswept.eq]

/-! ## Completions of released events -/

theorem Steps.typeOf_eq (hstep : s.Steps a s') (hw : s.Wf) (hj : j < s.nextEvent) :
    s'.typeOf j = s.typeOf j := by
  cases hstep with
  | new => exact Function.update_of_ne hj.ne _ _
  | free => rw [eventFree_eq]
  | processEndgame hp hx => rw [hw.processEndgame_eq hx]
  | @dispatchTcp i t d rest sys =>
    unfold IoLoop.dispatchTcp
    rcases t.tcpProactorCallback d sys s.fresh with ⟨t', client, effects⟩
    cases client with
    | none => rfl
    | some c => exact Function.update_of_ne hj.ne _ _
  | _ => rfl

/-- The completions on the way to events of the types `p` are for events whose memory is there. -/
def Addressed (p : EventType → Prop) (s : IoLoop) : Prop :=
  ∀ e ∈ s.queue ++ s.batch, ∀ type, s.typeOf e.1 = some type → p type → s.mem e.1 ≠ none

theorem init_addressed (p : EventType → Prop) : init.Addressed p := nofun

/-- Completions stay addressed when the memory of an event that has one on the way is not
released. -/
theorem Steps.addressed {p : EventType → Prop} (hstep : s.Steps a s') (hw : s.Wf)
    (h : s.Addressed p)
    (hkeep : ∀ j o d, s.mem j = some o → p o.type → 0 < s.queued j d + s.batched j d →
      o.freeDefers = true) : s'.Addressed p := by
  rintro ⟨j, d⟩ he type htype hp hnone
  rw [mem_under_way] at he
  dsimp only at htype hnone
  -- the completion was on the way before, and then to memory that was there
  have hold : 0 < s.queued j d + s.batched j d → ∃ o, s.mem j = some o ∧ p o.type := by
    intro hpos
    have hmem := mem_under_way.mpr hpos
    have hlt : j < s.nextEvent := (List.mem_append.mp hmem).elim (hw.traffic.queue_lt _)
      (hw.traffic.batch_lt _)
    rw [hstep.typeOf_eq hw hlt] at htype
    obtain ⟨o, ho⟩ := Option.ne_none_iff_exists'.mp (h _ hmem type htype hp)
    have htypeOf := (hw.memory.typeOf ho).symm.trans htype
    exact ⟨o, ho, Option.some.inj htypeOf ▸ hp⟩
  have hsome : ∀ o, s'.mem j ≠ some o :=
    fun o ho ↦ absurd (ho.symm.trans hnone) (Option.some_ne_none o)
  cases hstep.local hw j with
  | untouched hmem hstill =>
    obtain ⟨o, ho, -⟩ := hold (he.trans_le (hstill.count_le d))
    exact absurd (hmem.trans ho) (hsome o)
  | released hmem hidle hcount =>
    have hpos := he.trans_le (hcount d)
    obtain ⟨o, ho, hpo⟩ := hold hpos
    exact absurd ((hidle o ho).symm.trans (hkeep j o d ho hpo hpos)) (by decide)
  | polled ha hmem hbatch hmoved hpending =>
    obtain ⟨o, ho, -⟩ := hold (by rw [hmoved d] at he; omega)
    exact absurd (hmem.trans ho) (hsome o)
  | created _ ho' | linked _ _ ho' | freed _ _ _ _ ho' | tcpCall _ _ _ _ _ ho'
  | tcpTimeout _ _ _ _ _ ho' | tcpOffer _ _ _ _ ho' | tcpDispatch _ _ _ _ ho'
  | udpCall _ _ _ _ ho' | udpOffer _ _ _ _ ho' | udpDispatch _ _ _ ho' | asyncStart _ _ ho'
  | asyncSend _ _ ho' | asyncOffer _ _ _ _ ho' | asyncDispatch _ _ _ ho' =>
    exact absurd ho' (hsome _)

end IoLoop

end Nanoev
