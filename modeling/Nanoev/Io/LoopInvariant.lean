import Nanoev.Io.Endgame
import Nanoev.Io.TcpOutcome
import Nanoev.Io.UdpOutcome

/-!
# The steps of the loop and its bookkeeping

`Steps` lists the steps of the loop with what is known when they are taken. `Wf` is the bookkeeping
that every step keeps, whatever the client and the kernel do: events are numbered in order, an event
that the client has freed is marked deleted as long as it has its memory, the batch is empty outside
of the part of the loop that fills it and works it off, while the loop polls the queue is empty and
no direction of an event is offered twice, and the deferred deletions are linked to a list.
-/

namespace Nanoev

open Memory Transition

/-! ## What a function keeps of an event -/

/-- The functions on an event, other than the free functions, leave its type, its mark of deletion
and its place in the list of deferred deletions alone. -/
structure Obj.Kept (o o' : Obj) : Prop where
  type : o'.type = o.type
  deleted : o'.proactor.deleted = o.proactor.deleted
  next : o'.proactor.next = o.proactor.next

theorem Tcp.CallOutcome.kept {t t' : Tcp} {op : ℕ} {sys : Sys} {fresh : Fresh} {c : TcpCall}
    {effects : List IoEffect} {ret : RetCode} (h : CallOutcome t op sys fresh c t' effects ret) :
    Obj.Kept (.tcp t) (.tcp t') := by
  cases h <;> exact ⟨rfl, rfl, rfl⟩

theorem Tcp.DispatchOutcome.kept {t t' : Tcp} {d : Dir} {sys : Sys} {fresh : Fresh}
    {client : Option Tcp} {effects : List IoEffect}
    (h : DispatchOutcome t d sys fresh t' client effects) : Obj.Kept (.tcp t) (.tcp t') := by
  cases h <;> exact ⟨rfl, rfl, rfl⟩

theorem Tcp.TimeoutOutcome.kept {t t' : Tcp} {d : Dir} {sys : Sys} {effects : List IoEffect}
    (h : TimeoutOutcome t d sys t' effects) : Obj.Kept (.tcp t) (.tcp t') := by
  cases h <;> exact ⟨rfl, rfl, rfl⟩

theorem Tcp.OfferOutcome.kept {t t' : Tcp} {d : Dir} {sys : Sys} {fresh : Fresh}
    {completed : Bool} {effects : List IoEffect}
    (h : OfferOutcome t d sys fresh t' completed effects) : Obj.Kept (.tcp t) (.tcp t') := by
  cases h <;> exact ⟨rfl, rfl, rfl⟩

theorem Tcp.AcceptOutcome.client_eq {alloc : Bool} {slot : Option ℕ} {status : ℤ} {op : ℕ}
    {sys : Sys}
    {fresh : Fresh} {cl : Option Tcp} {c : Tcp} {effects : List IoEffect}
    (h : AcceptOutcome alloc slot status op sys fresh cl effects) (hc : cl = some c) :
    ∃ u fd, c = Tcp.client u fd := by
  cases h with
  | accepted => exact ⟨_, _, (Option.some.inj hc).symm⟩
  | _ => cases hc

theorem Tcp.DispatchOutcome.client_eq {t t' c : Tcp} {d : Dir} {sys : Sys} {fresh : Fresh}
    {cl : Option Tcp} {effects : List IoEffect}
    (h : DispatchOutcome t d sys fresh t' cl effects) (hc : cl = some c) :
    ∃ u fd, c = Tcp.client u fd := by
  cases h with
  | acceptDone => exact (acceptClient_outcome ..).client_eq hc
  | _ => cases hc

theorem Tcp.OfferOutcome.submits_nil {t t' : Tcp} {d : Dir} {sys : Sys} {fresh : Fresh}
    {completed : Bool} {effects : List IoEffect}
    (h : OfferOutcome t d sys fresh t' completed effects) :
    effects.filterMap IoEffect.submitted? = [] := by
  cases h with
  | acceptFailed _ _ _ heffects => rcases heffects with rfl | rfl <;> rfl
  | _ => rfl

theorem Udp.CallOutcome.kept {u u' : Udp} {op : ℕ} {fresh : Fresh} {c : UdpCall}
    {effects : List IoEffect} {ret : RetCode} (h : CallOutcome u op fresh c u' effects ret) :
    Obj.Kept (.udp u) (.udp u') := by
  cases h <;> exact ⟨rfl, rfl, rfl⟩

theorem Udp.udpProactorCallback_kept (u : Udp) (d : Dir) (sys : Sys) :
    Obj.Kept (.udp u) (.udp (u.udpProactorCallback d sys).1) := by
  unfold udpProactorCallback setError registerProactor
  cases d <;> dsimp only <;> split_ifs <;> exact ⟨rfl, rfl, rfl⟩

theorem Udp.reactorCb_kept (u : Udp) (d : Dir) (sys : Sys) :
    Obj.Kept (.udp u) (.udp (u.reactorCb d sys).1) := by
  unfold reactorCb
  split <;> exact ⟨rfl, rfl, rfl⟩

theorem Async.nanoevAsyncStart_kept (a : Async) (op : ℕ) (sys : Sys) (fresh : Fresh) :
    Obj.Kept (.async a) (.async (a.nanoevAsyncStart op sys fresh).1) := by
  unfold nanoevAsyncStart
  split_ifs
  · exact ⟨rfl, rfl, rfl⟩
  · dsimp only
    split
    · exact ⟨rfl, rfl, rfl⟩
    · split
      · exact ⟨rfl, rfl, rfl⟩
      · exact ⟨rfl, rfl, rfl⟩
      · split <;> exact ⟨rfl, rfl, rfl⟩

theorem Async.nanoevAsyncSend_kept (a : Async) (written : Bool) :
    Obj.Kept (.async a) (.async (a.nanoevAsyncSend written).1) := by
  unfold nanoevAsyncSend
  split_ifs <;> exact ⟨rfl, rfl, rfl⟩

theorem Async.asyncProactorCallback_kept (a : Async) :
    Obj.Kept (.async a) (.async a.asyncProactorCallback.1) := ⟨rfl, rfl, rfl⟩

theorem Async.reactorCb_kept (a : Async) (sys : Sys) :
    Obj.Kept (.async a) (.async (a.reactorCb sys)) := by
  unfold reactorCb
  split <;> exact ⟨rfl, rfl, rfl⟩

namespace IoLoop

/-! ## The steps

`Steps` is what the other modules take apart instead of `step`. A function that works on an event
appears in it with the object that is found in memory. -/

inductive Steps (s : IoLoop) : Action → IoLoop → Prop
  | new {type} (hp : s.phase.client = true) : Steps s (.new type) (s.eventNew type)
  | free {i o} (ho : s.mem i = some o) (hf : s.freed i = false) (hp : s.phase.client = true) :
    Steps s (.free i) (s.eventFree i o)
  | tcp {i t c sys} (ho : s.mem i = some (.tcp t)) (hf : s.freed i = false)
      (hp : s.phase.client = true) (hk : c.kernel sys = true) :
    Steps s (.tcp i c sys) (s.tcpCall i t c sys)
  | udp {i u c sys} (ho : s.mem i = some (.udp u)) (hf : s.freed i = false)
      (hp : s.phase.client = true) (hk : c.kernel sys = true) :
    Steps s (.udp i c sys) (s.udpCall i u c sys)
  | asyncStart {i a sys} (ho : s.mem i = some (.async a)) (hf : s.freed i = false)
      (hp : s.phase.client = true) : Steps s (.asyncStart i sys) (s.asyncStart i a sys)
  | asyncSend {i a written} (ho : s.mem i = some (.async a)) (hf : s.freed i = false)
      (hstarted : a.started = true) :
    Steps s (.asyncSend i written) (s.put i (.async (a.nanoevAsyncSend written).1))
  | runEnter (hp : s.phase = .idle) : Steps s .runEnter { s with phase := .timers }
  | timerFires (hp : s.phase = .timers) : Steps s .timerFires { s with phase := .timerCallback }
  | timeoutFires {i t d sys} (ho : s.mem i = some (.tcp t)) (hp : s.phase = .timers)
      (hactive : (t.timeout d).active = true) :
    Steps s (.timeoutFires i d sys) (s.timeoutFires i t d sys)
  | timerReturn (hp : s.phase = .timerCallback) : Steps s .callbackReturn
    { s with phase := .timers }
  | ioReturn (hp : s.phase = .ioCallback) : Steps s .callbackReturn { s with phase := .dispatching }
  | processEndgame {s'} (hp : s.phase = .timers) (h : s.processEndgameProactor = some s') :
    Steps s .processEndgame { s' with phase := .waiting }
  | takeQueued (hp : s.phase = .waiting) (hq : s.queue ≠ []) :
    Steps s .takeQueued
      { s with
        queue := s.queue.drop maxEvents, batch := s.queue.take maxEvents, phase := .dispatching }
  | epollWait (hp : s.phase = .waiting) (hq : s.queue = []) :
    Steps s .epollWait { s with phase := .polling [] [] }
  | epollFails (hp : s.phase = .waiting) (hq : s.queue = []) :
    Steps s .epollFails { s with phase := .idle }
  | report {i r o reported} (hp : s.phase = .polling reported []) (ho : s.mem i = some o)
      (hi : i ∉ reported) (hr : r.possible o.interest = true) (hallowed : r.allowed o = true) :
    Steps s (.report i r)
      { s with phase := .polling (i :: reported) (r.offers i o.proactor.reactorEvents) }
  | offerTcp {i t d sys reported offers} (hp : s.phase = .polling reported ((i, d) :: offers))
      (ho : s.mem i = some (.tcp t)) (hk : t.reactorKernel d sys = true)
      (hroom : s.batch.length < maxEvents) :
    Steps s (.offer sys) { s.offerTcp i t d sys with phase := .polling reported offers }
  | offerUdp {i u d sys reported offers} (hp : s.phase = .polling reported ((i, d) :: offers))
      (ho : s.mem i = some (.udp u)) (hk : u.reactorKernel d sys = true) :
    Steps s (.offer sys) { s.offerUdp i u d sys with phase := .polling reported offers }
  | offerAsync {i a d sys reported offers} (hp : s.phase = .polling reported ((i, d) :: offers))
      (ho : s.mem i = some (.async a)) (hk : a.reactorKernel sys = true) (hd : d = .read) :
    Steps s (.offer sys) { s.offerAsync i a d sys with phase := .polling reported offers }
  | offerFull {e sys reported offers} (hp : s.phase = .polling reported (e :: offers))
      (hfull : ¬s.batch.length < maxEvents) :
    Steps s (.offer sys) { s with phase := .polling reported offers }
  | pollReturn {reported} (hp : s.phase = .polling reported []) :
    Steps s .pollReturn { s with phase := .dispatching }
  | dispatchTcp {i t d rest sys} (hp : s.phase = .dispatching) (hb : s.batch = (i, d) :: rest)
      (ho : s.mem i = some (.tcp t)) : Steps s (.dispatch sys) (s.dispatchTcp i t d rest sys)
  | dispatchUdp {i u d rest sys} (hp : s.phase = .dispatching) (hb : s.batch = (i, d) :: rest)
      (ho : s.mem i = some (.udp u)) : Steps s (.dispatch sys) (s.dispatchUdp i u d rest sys)
  | dispatchAsync {i a d rest sys} (hp : s.phase = .dispatching) (hb : s.batch = (i, d) :: rest)
      (ho : s.mem i = some (.async a)) : Steps s (.dispatch sys) (s.dispatchAsync i a d rest)
  | dispatchNone {i d rest sys} (hp : s.phase = .dispatching) (hb : s.batch = (i, d) :: rest)
      (ho : s.mem i = none) : Steps s (.dispatch sys) (s.deliver i d rest)
  | nextRound (hp : s.phase = .dispatching) (hb : s.batch = []) :
    Steps s .nextRound { s with phase := .timers }
  | runExit (hp : s.phase = .dispatching) (hb : s.batch = []) :
    Steps s .runExit { s with phase := .idle }

variable {s s' : IoLoop}

theorem offer_unique {reported reported' : List ℕ} {offers offers' : List (ℕ × Dir)}
    {e e' : ℕ × Dir} (h : s.phase = .polling reported (e :: offers))
    (h' : s.phase = .polling reported' (e' :: offers')) : e = e' :=
  (List.cons.inj (Phase.polling.inj (h.symm.trans h')).2).1

theorem live_eq_some_iff {i : ℕ} {o : Obj} :
    s.live i = some o ↔ s.mem i = some o ∧ s.freed i = false := by
  unfold live
  split
  · next h => simp [h]
  · next h => simp [h]

theorem step_eq_some {a : Action} (h : s.step a = some s') : s.Steps a s' := by
  cases a with
  | new type =>
    obtain ⟨hp, rfl⟩ := of_guard h
    exact .new hp
  | free i =>
    simp only [step] at h
    split at h
    · next o ho =>
      obtain ⟨hp, rfl⟩ := of_guard h
      exact .free (live_eq_some_iff.mp ho).1 (live_eq_some_iff.mp ho).2 hp
    · cases h
  | tcp i c sys =>
    simp only [step] at h
    split at h
    · next t ho =>
      obtain ⟨hg, rfl⟩ := of_guard h
      rw [Bool.and_eq_true] at hg
      exact .tcp (live_eq_some_iff.mp ho).1 (live_eq_some_iff.mp ho).2 hg.1 hg.2
    · cases h
  | udp i c sys =>
    simp only [step] at h
    split at h
    · next u ho =>
      obtain ⟨hg, rfl⟩ := of_guard h
      rw [Bool.and_eq_true] at hg
      exact .udp (live_eq_some_iff.mp ho).1 (live_eq_some_iff.mp ho).2 hg.1 hg.2
    · cases h
  | asyncStart i sys =>
    simp only [step] at h
    split at h
    · next a ho =>
      obtain ⟨hp, rfl⟩ := of_guard h
      exact .asyncStart (live_eq_some_iff.mp ho).1 (live_eq_some_iff.mp ho).2 hp
    · cases h
  | asyncSend i written =>
    simp only [step] at h
    split at h
    · next a ho =>
      obtain ⟨hstarted, rfl⟩ := of_guard h
      exact .asyncSend (live_eq_some_iff.mp ho).1 (live_eq_some_iff.mp ho).2 hstarted
    · cases h
  | runEnter =>
    obtain ⟨hp, rfl⟩ := of_guard h
    exact .runEnter hp
  | timerFires =>
    obtain ⟨hp, rfl⟩ := of_guard h
    exact .timerFires hp
  | timeoutFires i d sys =>
    simp only [step] at h
    split at h
    · next t ho =>
      obtain ⟨⟨hp, hactive⟩, rfl⟩ := of_guard h
      exact .timeoutFires ho hp hactive
    · cases h
  | callbackReturn =>
    simp only [step] at h
    split at h
    · next hp =>
      obtain rfl := Option.some.inj h
      exact .timerReturn hp
    · next hp =>
      obtain rfl := Option.some.inj h
      exact .ioReturn hp
    · cases h
  | processEndgame =>
    simp only [step] at h
    split at h
    · next hp =>
      obtain ⟨x, hx, rfl⟩ := Option.map_eq_some_iff.mp h
      exact .processEndgame hp hx
    · cases h
  | takeQueued =>
    obtain ⟨⟨hp, hq⟩, rfl⟩ := of_guard h
    exact .takeQueued hp hq
  | epollWait =>
    obtain ⟨⟨hp, hq⟩, rfl⟩ := of_guard h
    exact .epollWait hp hq
  | epollFails =>
    obtain ⟨⟨hp, hq⟩, rfl⟩ := of_guard h
    exact .epollFails hp hq
  | report i r =>
    simp only [step] at h
    split at h
    · next reported o hp ho =>
      obtain ⟨⟨hi, -, hr, hallowed⟩, rfl⟩ := of_guard h
      exact .report hp ho hi hr hallowed
    · cases h
  | offer sys =>
    simp only [step] at h
    split at h
    · next reported i d offers hp =>
      split at h
      · next hroom =>
        obtain ⟨x, hx, rfl⟩ := Option.map_eq_some_iff.mp h
        simp only [appendReactorEvent] at hx
        split at hx
        · next t ho =>
          obtain ⟨hk, rfl⟩ := of_guard hx
          exact .offerTcp hp ho hk hroom
        · next u ho =>
          obtain ⟨hk, rfl⟩ := of_guard hx
          exact .offerUdp hp ho hk
        · next a ho =>
          obtain ⟨⟨hk, hd⟩, rfl⟩ := of_guard hx
          exact .offerAsync hp ho hk hd
        · cases hx
      · next hfull =>
        obtain rfl := Option.some.inj h
        exact .offerFull hp hfull
    · cases h
  | pollReturn =>
    simp only [step] at h
    split at h
    · next reported hp =>
      obtain rfl := Option.some.inj h
      exact .pollReturn hp
    · cases h
  | dispatch sys =>
    simp only [step] at h
    split at h
    · next i d rest hp hb =>
      obtain rfl := Option.some.inj h
      unfold dispatch
      split
      · next t ho => exact .dispatchTcp hp hb ho
      · next u ho => exact .dispatchUdp hp hb ho
      · next a ho => exact .dispatchAsync hp hb ho
      · next ho => exact .dispatchNone hp hb ho
    · cases h
  | nextRound =>
    obtain ⟨⟨hp, hb⟩, rfl⟩ := of_guard h
    exact .nextRound hp hb
  | runExit =>
    obtain ⟨⟨hp, hb⟩, rfl⟩ := of_guard h
    exact .runExit hp hb

/-! ## Memory

The list of deferred deletions is a chain of links through the objects. A client that frees an event
puts it at the head or releases it, and the pass unlinks what it releases; all other steps change
neither links nor marks. The number of events bounds the length of the chain, so the pass comes to
its end. -/

/-- The memory of the events and the list of deferred deletions. -/
structure Memory (s : IoLoop) : Prop where
  mem_lt : ∀ {i}, s.nextEvent ≤ i → s.mem i = none
  freed_lt : ∀ {i}, s.nextEvent ≤ i → s.freed i = false
  deleted : ∀ {i o}, s.mem i = some o → o.proactor.deleted = s.freed i
  typeOf : ∀ {i o}, s.mem i = some o → s.typeOf i = some o.type
  endgame : ∃ l, s.Endgame l

theorem Endgame.congr {l : List ℕ} (h : s.Endgame l) (hhead : s'.endgameHead = s.endgameHead)
    (hmem : ∀ i ∈ l, ∀ o, s.mem i = some o →
      ∃ o', s'.mem i = some o' ∧ o'.proactor.deleted = o.proactor.deleted ∧
        o'.proactor.next = o.proactor.next) : s'.Endgame l where
  chain := by
    rw [hhead]
    refine h.chain.congr fun i hi ↦ ?_
    obtain ⟨o, ho, -⟩ := h.deleted i hi
    obtain ⟨o', ho', -, hnext⟩ := hmem i hi o ho
    rw [nextOf, ho', nextOf, ho, Option.bind_some, Option.bind_some, hnext]
  nodup := h.nodup
  deleted := by
    intro i hi
    obtain ⟨o, ho, hdel⟩ := h.deleted i hi
    obtain ⟨o', ho', hdel', -⟩ := hmem i hi o ho
    exact ⟨o', ho', hdel'.trans hdel⟩

theorem Endgame.push {l : List ℕ} {i : ℕ} (h : s.Endgame l) (hi : i ∉ l)
    (hmem : ∀ j, j ≠ i → s'.mem j = s.mem j)
    (hself : ∃ y, s'.mem i = some y ∧ y.proactor.deleted = true ∧
      y.proactor.next = s.endgameHead)
    (hhead : s'.endgameHead = some i) : s'.Endgame (i :: l) := by
  obtain ⟨y, hy, hdel, hnext⟩ := hself
  have hne : ∀ j ∈ l, j ≠ i := fun j hj hji ↦ hi (hji ▸ hj)
  refine ⟨⟨hhead, ?_⟩, List.nodup_cons.mpr ⟨hi, h.nodup⟩, fun j hj ↦ ?_⟩
  · rw [nextOf, hy, Option.bind_some, hnext]
    exact h.chain.congr fun j hj ↦ nextOf_congr (hmem j (hne j hj))
  · rcases List.mem_cons.mp hj with rfl | hj
    · exact ⟨y, hy, hdel⟩
    · rw [hmem j (hne j hj)]
      exact h.deleted j hj

namespace Memory

variable {i : ℕ} {o o' : Obj}

theorem lt (h : s.Memory) (ho : s.mem i = some o) : i < s.nextEvent := by
  by_contra hi
  rw [h.mem_lt (Nat.le_of_not_lt hi)] at ho
  cases ho

theorem frame (h : s.Memory) (hmem : s'.mem = s.mem) (hn : s'.nextEvent = s.nextEvent)
    (hfreed : s'.freed = s.freed) (htype : s'.typeOf = s.typeOf)
    (hhead : s'.endgameHead = s.endgameHead) : s'.Memory where
  mem_lt := by rw [hmem, hn]; exact h.mem_lt
  freed_lt := by rw [hfreed, hn]; exact h.freed_lt
  deleted := by rw [hmem, hfreed]; exact h.deleted
  typeOf := by rw [hmem, htype]; exact h.typeOf
  endgame := by
    obtain ⟨l, hl⟩ := h.endgame
    exact ⟨l, hl.congr hhead fun i _ o ho ↦ ⟨o, by rw [hmem]; exact ho, rfl, rfl⟩⟩

theorem act (h : s.Memory) (ho : s.mem i = some o) (hk : o.Kept o')
    (hmem : s'.mem = Function.update s.mem i (some o')) (hn : s.nextEvent ≤ s'.nextEvent)
    (hfreed : s'.freed = s.freed) (htype : s'.typeOf = s.typeOf)
    (hhead : s'.endgameHead = s.endgameHead) : s'.Memory where
  mem_lt := by
    intro j hj
    have hji : j ≠ i := by have := h.lt ho; omega
    rw [hmem, Function.update_of_ne hji]
    exact h.mem_lt (hn.trans hj)
  freed_lt := by
    intro j hj
    rw [hfreed]
    exact h.freed_lt (hn.trans hj)
  deleted := by
    intro j x hx
    rw [hfreed]
    by_cases hji : j = i
    · subst hji
      rw [hmem, Function.update_self] at hx
      obtain rfl := Option.some.inj hx
      exact hk.deleted.trans (h.deleted ho)
    · rw [hmem, Function.update_of_ne hji] at hx
      exact h.deleted hx
  typeOf := by
    intro j x hx
    rw [htype]
    by_cases hji : j = i
    · subst hji
      rw [hmem, Function.update_self] at hx
      obtain rfl := Option.some.inj hx
      rw [hk.type]
      exact h.typeOf ho
    · rw [hmem, Function.update_of_ne hji] at hx
      exact h.typeOf hx
  endgame := by
    obtain ⟨l, hl⟩ := h.endgame
    refine ⟨l, hl.congr hhead fun j _ x hx ↦ ?_⟩
    by_cases hji : j = i
    · subst hji
      obtain rfl := Option.some.inj (ho.symm.trans hx)
      exact ⟨o', by rw [hmem, Function.update_self], hk.deleted, hk.next⟩
    · exact ⟨x, by rw [hmem, Function.update_of_ne hji]; exact hx, rfl, rfl⟩

theorem create {n : ℕ} (h : s.Memory) (hlive : o.proactor.deleted = false)
    (hnone : s.mem n = none) (hnot : s.freed n = false)
    (hmem : s'.mem = Function.update s.mem n (some o)) (hn : s.nextEvent ≤ s'.nextEvent)
    (hn' : n < s'.nextEvent) (hfreed : s'.freed = s.freed)
    (htype : s'.typeOf = Function.update s.typeOf n (some o.type))
    (hhead : s'.endgameHead = s.endgameHead) : s'.Memory where
  mem_lt := by
    intro j hj
    rw [hmem, Function.update_of_ne (by omega)]
    exact h.mem_lt (by omega)
  freed_lt := by
    intro j hj
    rw [hfreed]
    exact h.freed_lt (by omega)
  deleted := by
    intro j x hx
    rw [hfreed]
    by_cases hjn : j = n
    · subst hjn
      rw [hmem, Function.update_self] at hx
      obtain rfl := Option.some.inj hx
      rw [hlive, hnot]
    · rw [hmem, Function.update_of_ne hjn] at hx
      exact h.deleted hx
  typeOf := by
    intro j x hx
    rw [htype]
    by_cases hjn : j = n
    · subst hjn
      rw [hmem, Function.update_self] at hx
      obtain rfl := Option.some.inj hx
      exact Function.update_self ..
    · rw [hmem, Function.update_of_ne hjn] at hx
      rw [Function.update_of_ne hjn]
      exact h.typeOf hx
  endgame := by
    obtain ⟨l, hl⟩ := h.endgame
    refine ⟨l, hl.congr hhead fun j _ x hx ↦ ⟨x, ?_, rfl, rfl⟩⟩
    have hjn : j ≠ n := by
      rintro rfl
      rw [hnone] at hx
      cases hx
    rw [hmem, Function.update_of_ne hjn]
    exact hx

theorem freeing {x : Option Obj} (h : s.Memory) (ho : s.mem i = some o)
    (hmem : s'.mem = Function.update s.mem i x)
    (hx : ∀ y, x = some y → y.proactor.deleted = true ∧ y.type = o.type)
    (hend : ∃ l, s'.Endgame l) (hn : s'.nextEvent = s.nextEvent)
    (hfreed : s'.freed = Function.update s.freed i true) (htype : s'.typeOf = s.typeOf) :
    s'.Memory where
  mem_lt := by
    intro j hj
    rw [hn] at hj
    have hji : j ≠ i := by have := h.lt ho; omega
    rw [hmem, Function.update_of_ne hji]
    exact h.mem_lt hj
  freed_lt := by
    intro j hj
    rw [hn] at hj
    have hji : j ≠ i := by have := h.lt ho; omega
    rw [hfreed, Function.update_of_ne hji]
    exact h.freed_lt hj
  deleted := by
    intro j y hy
    by_cases hji : j = i
    · subst hji
      rw [hmem, Function.update_self] at hy
      rw [hfreed, Function.update_self]
      exact (hx y hy).1
    · rw [hmem, Function.update_of_ne hji] at hy
      rw [hfreed, Function.update_of_ne hji]
      exact h.deleted hy
  typeOf := by
    intro j y hy
    rw [htype]
    by_cases hji : j = i
    · subst hji
      rw [hmem, Function.update_self] at hy
      rw [(hx y hy).2]
      exact h.typeOf ho
    · rw [hmem, Function.update_of_ne hji] at hy
      exact h.typeOf hy
  endgame := hend

theorem eventFree (h : s.Memory) (ho : s.mem i = some o) (hf : s.freed i = false) :
    (s.eventFree i o).Memory := by
  obtain ⟨l, hl⟩ := h.endgame
  have hil : i ∉ l := by
    intro hi
    obtain ⟨x, hx, hdel⟩ := hl.deleted i hi
    obtain rfl := Option.some.inj (ho.symm.trans hx)
    exact absurd ((hdel.symm.trans (h.deleted ho)).trans hf) (by decide)
  unfold IoLoop.eventFree freeProactor
  dsimp only
  split
  · refine h.freeing ho rfl (fun y hy ↦ ?_) ⟨i :: l, hl.push hil ?_ ?_ ?_⟩ rfl rfl rfl
    · obtain rfl := Option.some.inj hy
      exact ⟨by simp, by cases o <;> rfl⟩
    · exact fun j hj ↦ Function.update_of_ne hj _ _
    · exact ⟨_, Function.update_self .., by simp, by simp⟩
    · rfl
  · refine h.freeing ho rfl (fun y hy ↦ by cases hy) ⟨l, hl.congr rfl fun j hj x hx ↦ ?_⟩
      rfl rfl rfl
    have hji : j ≠ i := fun hji ↦ hil (hji ▸ hj)
    exact ⟨x, (Function.update_of_ne hji _ _).trans hx, rfl, rfl⟩

theorem endgame_length {l : List ℕ} (h : s.Memory) (hl : s.Endgame l) :
    l.length < s.nextEvent + 1 := by
  have hsub : l ⊆ List.range s.nextEvent := by
    intro i hi
    obtain ⟨o, ho, -⟩ := hl.deleted i hi
    exact List.mem_range.mpr (h.lt ho)
  have := (List.subperm_of_subset hl.nodup hsub).length_le
  rw [List.length_range] at this
  exact Nat.lt_succ_of_le this

theorem processEndgame {l : List ℕ} (h : s.Memory) (hl : s.Endgame l) :
    ∃ s', s.processEndgameProactor = some s' ∧ s'.Endgame (sweep s.verdict [] l) ∧
      s.Swept (s.judged .release l) (s.judged .relist l) s' :=
  hl.cut.endgameLoop (h.endgame_length hl)

theorem swept {gone relisted : List ℕ} (h : s.Memory) (hs : s.Swept gone relisted s')
    (hend : ∃ l, s'.Endgame l) : s'.Memory := by
  have hback : ∀ {j y}, s'.mem j = some y → ∃ o n, s.mem j = some o ∧ y = o.withNext n := by
    intro j y hy
    by_cases hj : j ∈ gone
    · rw [hs.gone_mem j hj] at hy
      cases hy
    · obtain ⟨n, hn⟩ := hs.links j hj
      obtain ⟨o, ho, rfl⟩ := Option.map_eq_some_iff.mp (hn.symm.trans hy)
      exact ⟨o, n, ho, rfl⟩
  rw [hs.eq]
  refine ⟨fun {j} hj ↦ ?_, h.freed_lt, fun {j y} hy ↦ ?_, fun {j y} hy ↦ ?_, ?_⟩
  · by_contra hne
    obtain ⟨y, hy⟩ := Option.ne_none_iff_exists'.mp hne
    obtain ⟨o, -, ho, -⟩ := hback hy
    rw [h.mem_lt hj] at ho
    cases ho
  · obtain ⟨o, n, ho, rfl⟩ := hback hy
    rw [Obj.proactor_withNext]
    exact h.deleted ho
  · obtain ⟨o, n, ho, rfl⟩ := hback hy
    have htype : (o.withNext n).type = o.type := by cases o <;> rfl
    rw [htype]
    exact h.typeOf ho
  · rw [← hs.eq]
    exact hend

end Memory

/-! ## Completions on the way

There is a batch only from the poll to the end of its dispatch, and the client acts in phases in
which the loop does not poll. -/

def unbatched : Phase → Bool
  | .idle | .timers | .timerCallback | .waiting => true
  | _ => false

/-- The directions that are still to be offered while the loop polls. -/
structure Offering (s : IoLoop) (reported : List ℕ) (offers : List (ℕ × Dir)) : Prop where
  queue : s.queue = []
  nodup : offers.Nodup
  offered : ∀ e ∈ offers, e.1 ∈ reported
  completed : ∀ e ∈ s.batch, e.1 ∈ reported ∧ e ∉ offers

/-- The queue, the batch and the directions to be offered. -/
structure Traffic (s : IoLoop) : Prop where
  queue_lt : ∀ e ∈ s.queue, e.1 < s.nextEvent
  batch_lt : ∀ e ∈ s.batch, e.1 < s.nextEvent
  batch_eq : unbatched s.phase = true → s.batch = []
  offering : ∀ {reported offers}, s.phase = .polling reported offers → s.Offering reported offers

namespace Traffic

theorem of_not_polling (hq : ∀ e ∈ s.queue, e.1 < s.nextEvent)
    (hb : ∀ e ∈ s.batch, e.1 < s.nextEvent) (hbatch : unbatched s.phase = true → s.batch = [])
    (hp : ∀ reported offers, s.phase ≠ .polling reported offers) : s.Traffic :=
  ⟨hq, hb, hbatch, fun h ↦ absurd h (hp _ _)⟩

theorem act {i : ℕ} {l : List Dir} (h : s.Traffic) (hi : i < s.nextEvent)
    (hq : s'.queue = s.queue ++ l.map fun d ↦ (i, d)) (hn : s.nextEvent ≤ s'.nextEvent)
    (hb : ∀ e ∈ s'.batch, e ∈ s.batch) (hbatch : unbatched s'.phase = true → s'.batch = [])
    (hp : ∀ reported offers, s'.phase ≠ .polling reported offers) : s'.Traffic := by
  refine of_not_polling (fun e he ↦ ?_) (fun e he ↦ (h.batch_lt e (hb e he)).trans_le hn) hbatch hp
  rw [hq, List.mem_append, List.mem_map] at he
  rcases he with he | ⟨d, -, rfl⟩
  · exact (h.queue_lt e he).trans_le hn
  · exact hi.trans_le hn

/-- An offer is made: the completion goes into the batch, if there is one. -/
theorem offer {i : ℕ} {d : Dir} {reported : List ℕ} {offers : List (ℕ × Dir)} {completed : Bool}
    (h : s.Traffic) (hp : s.phase = .polling reported ((i, d) :: offers)) (hi : i < s.nextEvent)
    (hq : s'.queue = s.queue) (hn : s.nextEvent ≤ s'.nextEvent)
    (hb : s'.batch = s.batch ++ completion i d completed)
    (hp' : s'.phase = .polling reported offers) : s'.Traffic := by
  have ho := h.offering hp
  have hnodup := List.nodup_cons.mp ho.nodup
  have hnew : ∀ e ∈ s'.batch, e ∈ s.batch ∨ e = (i, d) := by
    intro e he
    rw [hb, List.mem_append] at he
    refine he.imp_right fun he ↦ ?_
    cases completed with
    | false => cases he
    | true => exact List.mem_singleton.mp he
  refine ⟨by rw [hq, ho.queue]; simp, fun e he ↦ ?_, by rw [hp']; simp [unbatched], fun hp'' ↦ ?_⟩
  · rcases hnew e he with he | rfl
    · exact (h.batch_lt e he).trans_le hn
    · exact hi.trans_le hn
  · obtain ⟨rfl, rfl⟩ := Phase.polling.inj (hp'.symm.trans hp'')
    refine ⟨hq.trans ho.queue, hnodup.2, fun e he ↦ ho.offered e (List.mem_cons_of_mem _ he),
      fun e he ↦ ?_⟩
    rcases hnew e he with he | rfl
    · obtain ⟨hr, hno⟩ := ho.completed e he
      exact ⟨hr, fun hin ↦ hno (List.mem_cons_of_mem _ hin)⟩
    · exact ⟨ho.offered _ List.mem_cons_self, hnodup.1⟩

end Traffic

theorem Report.offers_nodup (r : Report) (i : ℕ) (m : Mask) : (r.offers i m).Nodup := by
  unfold Report.offers
  cases r with
  | readable | writable => simp
  | hangup => cases m.read <;> cases m.write <;> simp

theorem Report.fst_of_mem_offers {r : Report} {i : ℕ} {m : Mask} {e : ℕ × Dir}
    (h : e ∈ r.offers i m) : e.1 = i := by
  unfold Report.offers at h
  cases r with
  | readable | writable => rw [List.mem_singleton.mp h]
  | hangup =>
    rw [List.mem_append] at h
    rcases h with h | h <;> split at h <;> simp at h <;> rw [h]

theorem ite_ne_polling {p p' : Phase} (b : Bool)
    (hp : ∀ reported offers, p ≠ .polling reported offers)
    (hp' : ∀ reported offers, p' ≠ .polling reported offers) (reported : List ℕ)
    (offers : List (ℕ × Dir)) : (if b then p else p') ≠ .polling reported offers := by
  cases b with
  | true => exact hp reported offers
  | false => exact hp' reported offers

theorem not_polling_of_client (h : s.phase.client = true) (reported : List ℕ)
    (offers : List (ℕ × Dir)) : s.phase ≠ .polling reported offers := by
  intro hp
  rw [hp] at h
  cases h

/-! ## The bookkeeping is kept -/

structure Wf (s : IoLoop) : Prop where
  memory : s.Memory
  traffic : s.Traffic

theorem init_wf : init.Wf where
  memory := ⟨fun _ ↦ rfl, fun _ ↦ rfl, nofun, nofun, [], rfl, List.nodup_nil, by simp⟩
  traffic := ⟨by simp [init], by simp [init], fun _ ↦ rfl, nofun⟩

namespace Wf

variable {i : ℕ} {d : Dir} {sys : Sys} {rest : List (ℕ × Dir)}

theorem proceed {p : Phase} (h : s.Wf) (hp : ∀ reported offers, p ≠ .polling reported offers)
    (hb : unbatched p = true → s.batch = []) : Wf { s with phase := p } where
  memory := h.memory.frame rfl rfl rfl rfl rfl
  traffic := .of_not_polling h.traffic.queue_lt h.traffic.batch_lt hb hp

theorem batch_of_phase {p : Phase} (h : s.Wf) (hp : s.phase = p) (hu : unbatched p = true) :
    s.batch = [] := h.traffic.batch_eq (hp ▸ hu)

theorem eventNew (h : s.Wf) (hp : s.phase.client = true) (type : EventType) :
    (s.eventNew type).Wf where
  memory := h.memory.create (by cases type <;> rfl) (h.memory.mem_lt le_rfl)
    (h.memory.freed_lt le_rfl) rfl (Nat.le_succ _) (Nat.lt_succ_self _) rfl
    (by cases type <;> rfl) rfl
  traffic := .of_not_polling (fun e he ↦ (h.traffic.queue_lt e he).trans (Nat.lt_succ_self _))
    (fun e he ↦ (h.traffic.batch_lt e he).trans (Nat.lt_succ_self _)) h.traffic.batch_eq
    (not_polling_of_client hp)

theorem freeProactor_traffic (i : ℕ) (o : Obj) :
    (s.freeProactor i o).queue = s.queue ∧ (s.freeProactor i o).batch = s.batch ∧
      (s.freeProactor i o).phase = s.phase ∧ (s.freeProactor i o).nextEvent = s.nextEvent ∧
      (s.freeProactor i o).udpPending = s.udpPending := by
  unfold freeProactor
  dsimp only
  split <;> exact ⟨rfl, rfl, rfl, rfl, rfl⟩

theorem eventFree {o : Obj} (h : s.Wf) (ho : s.mem i = some o) (hf : s.freed i = false)
    (hp : s.phase.client = true) : (s.eventFree i o).Wf where
  memory := h.memory.eventFree ho hf
  traffic := by
    obtain ⟨hq, hb, hphase, hn, -⟩ := freeProactor_traffic (s := s) i o
    exact h.traffic.act (l := []) (h.memory.lt ho) (hq.trans (List.append_nil _).symm) hn.ge
      (fun e he ↦ hb ▸ he)
      (fun hu ↦ hb.trans (h.traffic.batch_eq (by rwa [← hphase])))
      (fun _ _ hpoll ↦ not_polling_of_client hp _ _ (hphase.symm.trans hpoll))

theorem swept {gone relisted : List ℕ} (h : s.Wf) (hp : s.phase = .timers)
    (hs : s.Swept gone relisted s') (hend : ∃ l, s'.Endgame l) :
    Wf { s' with phase := .waiting } := by
  refine ⟨(h.memory.swept hs hend).frame rfl rfl rfl rfl rfl, ?_⟩
  rw [hs.eq]
  exact .of_not_polling h.traffic.queue_lt h.traffic.batch_lt (fun _ ↦ h.batch_of_phase hp rfl)
    (by simp)

theorem dispatched {o o' : Obj} {ds : List Dir} {b : Bool} (h : s.Wf)
    (hb : s.batch = (i, d) :: rest) (ho : s.mem i = some o) (hk : o.Kept o')
    (hmem : s'.mem = Function.update s.mem i (some o')) (hn : s.nextEvent ≤ s'.nextEvent)
    (hfreed : s'.freed = s.freed) (htype : s'.typeOf = s.typeOf)
    (hhead : s'.endgameHead = s.endgameHead) (hq : s'.queue = s.queue ++ ds.map fun d ↦ (i, d))
    (hrest : s'.batch = rest) (hp : s'.phase = if b then .ioCallback else .dispatching) :
    s'.Wf where
  memory := h.memory.act ho hk hmem hn hfreed htype hhead
  traffic := by
    refine h.traffic.act (h.memory.lt ho) hq hn (fun e he ↦ ?_) (fun hu ↦ ?_) ?_
    · rw [hb, ← hrest]
      exact List.mem_cons_of_mem _ he
    · rw [hp] at hu
      cases b <;> cases hu
    · rw [hp]
      exact ite_ne_polling _ nofun nofun

theorem addClient {n : ℕ} {c : Tcp} (h : s.Wf) (hn : n < s.nextEvent) (hnone : s.mem n = none)
    (hnot : s.freed n = false) (hc : c.deleted = false) : (s.addClient n (some c)).Wf where
  memory := h.memory.create (o := .tcp c) hc hnone hnot rfl le_rfl hn rfl rfl rfl
  traffic := ⟨h.traffic.queue_lt, h.traffic.batch_lt, h.traffic.batch_eq, fun hp ↦
    have ho := h.traffic.offering hp
    ⟨ho.queue, ho.nodup, ho.offered, ho.completed⟩⟩

theorem dispatchTcp {t : Tcp} (h : s.Wf) (hb : s.batch = (i, d) :: rest)
    (ho : s.mem i = some (.tcp t)) : (s.dispatchTcp i t d rest sys).Wf := by
  have hout : Tcp.DispatchOutcome t d sys s.fresh _ _ _ := Tcp.dispatch_outcome d
  unfold IoLoop.dispatchTcp
  rcases hcb : t.tcpProactorCallback d sys s.fresh with ⟨t', client, effects⟩
  rw [hcb] at hout
  have hw : Wf { ((s.deliver i d rest).perform .tcp i effects).put i (.tcp t') with
      phase := if invokes effects then .ioCallback else .dispatching } :=
    h.dispatched hb ho hout.kept rfl (Nat.le_succ _) rfl rfl rfl rfl rfl rfl
  cases client with
  | none => exact hw
  | some c =>
    obtain ⟨u, fd, hc⟩ := hout.client_eq rfl
    have hlt := h.memory.lt ho
    refine hw.addClient (Nat.lt_succ_self _) ?_ (h.memory.freed_lt le_rfl) (by rw [hc]; rfl)
    exact (Function.update_of_ne hlt.ne' _ _).trans (h.memory.mem_lt le_rfl)

end Wf

/-- **The bookkeeping** is kept by every step. -/
theorem Steps.wf {a : Action} (hstep : s.Steps a s') (h : s.Wf) : s'.Wf := by
  cases hstep with
  | new hp => exact h.eventNew hp _
  | free ho hf hp => exact h.eventFree ho hf hp
  | @tcp i t c sys ho hf hp hk =>
    exact ⟨h.memory.act ho (Tcp.run_outcome c).kept rfl (Nat.le_succ _) rfl rfl rfl,
      h.traffic.act (h.memory.lt ho) rfl (Nat.le_succ _) (fun _ he ↦ he) h.traffic.batch_eq
        (not_polling_of_client hp)⟩
  | @udp i u c sys ho hf hp hk =>
    exact ⟨h.memory.act ho (Udp.run_outcome c).kept rfl (Nat.le_succ _) rfl rfl rfl,
      h.traffic.act (h.memory.lt ho) rfl (Nat.le_succ _) (fun _ he ↦ he) h.traffic.batch_eq
        (not_polling_of_client hp)⟩
  | asyncStart ho hf hp =>
    exact ⟨h.memory.act ho (Async.nanoevAsyncStart_kept ..) rfl (Nat.le_succ _) rfl rfl rfl,
      h.traffic.act (h.memory.lt ho) rfl (Nat.le_succ _) (fun _ he ↦ he) h.traffic.batch_eq
        (not_polling_of_client hp)⟩
  | asyncSend ho hf hstarted =>
    exact ⟨h.memory.act ho (Async.nanoevAsyncSend_kept ..) rfl le_rfl rfl rfl rfl,
      h.traffic.queue_lt, h.traffic.batch_lt, h.traffic.batch_eq, fun hp ↦
        have ho := h.traffic.offering hp
        ⟨ho.queue, ho.nodup, ho.offered, ho.completed⟩⟩
  | runEnter hp | timerFires hp | timerReturn hp | epollFails hp hq =>
    exact h.proceed (by simp) fun _ ↦ h.batch_of_phase hp rfl
  | @timeoutFires i t d sys ho hp hactive =>
    exact ⟨h.memory.act ho (Tcp.timeout_outcome d).kept rfl (Nat.le_succ _) rfl rfl rfl,
      h.traffic.act (h.memory.lt ho) rfl (Nat.le_succ _) (fun _ he ↦ he)
        (fun _ ↦ h.batch_of_phase hp rfl) (ite_ne_polling _ nofun nofun)⟩
  | ioReturn hp | pollReturn hp => exact h.proceed (by simp) (by simp [unbatched])
  | processEndgame hp hs =>
    -- the linked list comes to its end, so the pass returns
    obtain ⟨l, hl⟩ := h.memory.endgame
    obtain ⟨s₁, hs₁, hend, hswept⟩ := h.memory.processEndgame hl
    obtain rfl := Option.some.inj (hs.symm.trans hs₁)
    exact h.swept hp hswept ⟨_, hend⟩
  | takeQueued hp hq =>
    -- what is left in the queue waits for the next round
    exact ⟨h.memory.frame rfl rfl rfl rfl rfl, .of_not_polling
        (fun e he ↦ h.traffic.queue_lt e (List.mem_of_mem_drop he))
        (fun e he ↦ h.traffic.queue_lt e (List.mem_of_mem_take he)) (by simp [unbatched]) (by simp)⟩
  | epollWait hp hq =>
    have hb := h.batch_of_phase hp rfl
    refine ⟨h.memory.frame rfl rfl rfl rfl rfl, h.traffic.queue_lt, h.traffic.batch_lt, fun _ ↦ hb,
      fun hp' ↦ ?_⟩
    obtain ⟨rfl, rfl⟩ := Phase.polling.inj hp'
    exact ⟨hq, List.nodup_nil, by simp, by simp [hb]⟩
  | @report i r o reported hp ho hi hr hallowed =>
    have hoff := h.traffic.offering hp
    refine ⟨h.memory.frame rfl rfl rfl rfl rfl, h.traffic.queue_lt,
      h.traffic.batch_lt, by simp [unbatched], fun hp' ↦ ?_⟩
    obtain ⟨rfl, rfl⟩ := Phase.polling.inj hp'
    refine ⟨hoff.queue, r.offers_nodup i _, fun e he ↦ ?_, fun e he ↦ ?_⟩
    · rw [Report.fst_of_mem_offers he]
      exact List.mem_cons_self
    · have hmem := (hoff.completed e he).1
      refine ⟨List.mem_cons_of_mem _ hmem, fun hin ↦ hi ?_⟩
      rwa [← Report.fst_of_mem_offers hin]
  | @offerTcp i t d sys reported offers hp ho hk =>
    have hout : Tcp.OfferOutcome t d sys s.fresh _ _ _ := Tcp.offer_outcome hk
    have hq : s.queue ++
        ((t.reactorCb d sys s.fresh).2.2.filterMap IoEffect.submitted?).map (fun d ↦ (i, d)) =
          s.queue := by
      rw [hout.submits_nil, List.map_nil, List.append_nil]
    exact ⟨h.memory.act ho hout.kept rfl (Nat.le_succ _) rfl rfl rfl,
      h.traffic.offer hp (h.memory.lt ho) hq (Nat.le_succ _) rfl rfl⟩
  | offerUdp hp ho hk =>
    exact ⟨h.memory.act ho (Udp.reactorCb_kept ..) rfl le_rfl rfl rfl rfl,
      h.traffic.offer hp (h.memory.lt ho) rfl le_rfl rfl rfl⟩
  | offerAsync hp ho hk hd =>
    exact ⟨h.memory.act ho (Async.reactorCb_kept ..) rfl le_rfl rfl rfl rfl,
      h.traffic.offer hp (h.memory.lt ho) rfl le_rfl rfl rfl⟩
  | @offerFull e sys reported offers hp =>
    have hoff := h.traffic.offering hp
    refine ⟨h.memory.frame rfl rfl rfl rfl rfl, h.traffic.queue_lt,
      h.traffic.batch_lt, by simp [unbatched], fun hp' ↦ ?_⟩
    obtain ⟨rfl, rfl⟩ := Phase.polling.inj hp'
    exact ⟨hoff.queue, (List.nodup_cons.mp hoff.nodup).2,
      fun e he ↦ hoff.offered e (List.mem_cons_of_mem _ he), fun e he ↦
        ⟨(hoff.completed e he).1, fun hin ↦ (hoff.completed e he).2 (List.mem_cons_of_mem _ hin)⟩⟩
  | dispatchTcp hp hb ho => exact h.dispatchTcp hb ho
  | dispatchUdp hp hb ho =>
    exact h.dispatched hb ho (Udp.udpProactorCallback_kept ..) rfl (Nat.le_succ _) rfl rfl rfl rfl
      rfl rfl
  | dispatchAsync hp hb ho =>
    exact h.dispatched hb ho (Async.asyncProactorCallback_kept _) rfl (Nat.le_succ _) rfl
      rfl rfl rfl
      rfl rfl
  | dispatchNone hp hb ho =>
    -- the completion of an event that is gone is only recorded
    exact ⟨h.memory.frame rfl rfl rfl rfl rfl, .of_not_polling h.traffic.queue_lt
        (fun e he ↦ h.traffic.batch_lt e (by rw [hb]; exact List.mem_cons_of_mem _ he))
        (by simp [hp, unbatched]) (by simp [hp])⟩
  | nextRound hp hb | runExit hp hb => exact h.proceed (by simp) fun _ ↦ hb

theorem wf_of_reachable {ok : IoLoop → Action → Prop} (h : Reachable step ok init s) : s.Wf :=
  h.invariant init_wf fun _ _ _ hs _ hstep ↦ (step_eq_some hstep).wf hs

end IoLoop

end Nanoev
