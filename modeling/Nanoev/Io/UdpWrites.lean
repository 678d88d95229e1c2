import Nanoev.Io.UdpSend

/-!
# The datagrams that UDP writes send

The calls of `send` and `sendto` are recorded here, beside the state of the loop, and so are the
writes that have been started.

## The invariant

While a write is pending, the event holds its buffer, its address and its callback, the socket is
open, and the event is connected if there is no address. As long as no completion is on the way,
nothing has been sent for the write. The call that sends puts the completion on the way, and no
readiness for writing is offered until it has been delivered. That holds whether or not the reads of
the event are expected, because the two directions have nothing in common but the registration.
-/

namespace Nanoev

open Transition UdpRecord

namespace IoLoop

/-- What an action adds to the record: the calls of `send` and `sendto` that are made in it, and the
write that is started. -/
def udpRecords (s : IoLoop) : Action → List UdpRecord
  | .udp i (.write b toAddr callback) sys =>
    match s.mem i with
    | some (.udp u) =>
      let op := if callback then some s.nextOp else none
      ((u.sendingAs b toAddr op sys s.fresh).toList.map fun x ↦
        .sent ⟨i, some s.nextOp, x.sock.map Socket.fd, x.connected, x.family, b, toAddr, sys.io⟩) ++
      if (u.nanoevUdpWrite b toAddr op sys s.fresh).2.2 = .success then
        [.started ⟨s.nextOp, i, b, toAddr⟩]
      else []
    | _ => []
  | .offer sys =>
    match s.phase with
    | .polling _ ((i, .write) :: _) =>
      match s.mem i with
      | some (.udp u) =>
        if s.batch.length < maxEvents then
          [.sent ⟨i, u.onWrite, u.sock.map Socket.fd, u.connected, u.family, u.bufWrite, u.dest,
            sys.io⟩]
        else []
      | _ => []
    | _ => []
  | _ => []

/-- `epoll_ctl` takes back the interest in writing of an open socket when a write is completed. -/
def interestDropped (s : IoLoop) : Action → Bool
  | .dispatch sys =>
    match s.batch with
    | (i, .write) :: _ =>
      match s.mem i with
      | some (.udp u) => u.deleted || !u.reactorEvents.write || sys.epollCtl.isNone
      | _ => true
    | _ => true
  | _ => true

theorem interestDropped_dispatch {s : IoLoop} {i : ℕ} {u : Udp} {sys : Sys} {rest : List (ℕ × Dir)}
    (h : s.interestDropped (.dispatch sys) = true) (hb : s.batch = (i, .write) :: rest)
    (hu : s.mem i = some (.udp u)) (hlive : u.deleted = false)
    (hwrite : u.reactorEvents.write = true) : sys.epollCtl = none := by
  rw [interestDropped, hb] at h
  dsimp only at h
  rw [hu] at h
  simpa [hlive, hwrite] using h

inductive Recording (s : IoLoop) : Action → List UdpRecord → Prop
  | nothing {a} : Recording s a []
  | atOnce {i u b toAddr sys x} (ho : s.mem i = some (.udp u))
      (hx : u.Sending b toAddr (some s.nextOp) sys s.fresh x) :
    Recording s (.udp i (.write b toAddr true) sys)
      (.sent ⟨i, some s.nextOp, x.sock.map Socket.fd, x.connected, x.family, b, toAddr, sys.io⟩ ::
        if (u.nanoevUdpWrite b toAddr (some s.nextOp) sys s.fresh).2.2 = .success then
          [.started ⟨s.nextOp, i, b, toAddr⟩]
        else [])
  | offered {i u sys reported offers} (hp : s.phase = .polling reported ((i, .write) :: offers))
      (ho : s.mem i = some (.udp u)) (hroom : s.batch.length < maxEvents) :
    Recording s (.offer sys)
      [.sent ⟨i, u.onWrite, u.sock.map Socket.fd, u.connected, u.family, u.bufWrite, u.dest,
        sys.io⟩]

theorem recording_udpRecords (s : IoLoop) (a : Action) : s.Recording a (s.udpRecords a) := by
  unfold udpRecords
  split
  · next i b toAddr callback sys =>
    split
    · next u hu =>
      cases hx : u.sendingAs b toAddr (if callback then some s.nextOp else none) sys s.fresh with
      | none =>
        dsimp only
        rw [if_neg (Udp.write_quiet hx).2]
        simp only [hx]
        exact .nothing
      | some x =>
        have hsending := Udp.sending_of_eq_some hx
        cases callback with
        | false => exact absurd rfl hsending.given
        | true =>
          simp only [if_true] at hx hsending ⊢
          rw [hx]
          exact .atOnce hu hsending
    · exact .nothing
  · next sys =>
    split
    · next reported i offers hp =>
      split
      · next u hu =>
        split
        · next hroom => exact .offered hp hu hroom
        · exact .nothing
      · exact .nothing
    · exact .nothing
  · exact .nothing

variable {s s' : IoLoop} {a : Action} {l : List UdpRecord} {i j : ℕ} {u u' : Udp}

theorem step_offer_full {sys : Sys} (h : s.step (.offer sys) = some s')
    (hfull : ¬s.batch.length < maxEvents) :
    s'.mem = s.mem ∧ s'.queue = s.queue ∧ s'.batch = s.batch := by
  simp only [step] at h
  split at h
  · rw [if_neg hfull] at h
    obtain rfl := Option.some.inj h
    exact ⟨rfl, rfl, rfl⟩
  · cases h

theorem Steps.udpCall_eq {c : UdpCall} {sys : Sys} (hstep : s.Steps (.udp i c sys) s') :
    ∃ u, s.mem i = some (.udp u) ∧ s.freed i = false ∧ c.kernel sys = true ∧
      s' = s.udpCall i u c sys := by
  cases hstep with
  | udp ho hf hp hk => exact ⟨_, ho, hf, hk, rfl⟩

theorem udpCall_mem (s : IoLoop) (i : ℕ) (u : Udp) (c : UdpCall) (sys : Sys) :
    (s.udpCall i u c sys).mem i = some (.udp (c.run u s.nextOp sys s.fresh).1) :=
  Function.update_self ..

theorem udpCall_queued (s : IoLoop) (i : ℕ) (u : Udp) (c : UdpCall) (sys : Sys) (d : Dir) :
    (s.udpCall i u c sys).queued i d =
      s.queued i d + submits (c.run u s.nextOp sys s.fresh).2.1 d :=
  congrFun (queued_of_submit rfl) d

/-! ### What a step does to an event -/

/-- What a step does to UDP event `j`, by the functions that do it. The numbers of completions on
the way are only told where they stay the same or where a call submits one. -/
inductive UdpTurn (s : IoLoop) (a : Action) (s' : IoLoop) (j : ℕ) : Udp → Prop
  | same {u : Udp} (hu : s.mem j = some (.udp u))
      (hcount : ∀ d, s'.queued j d + s'.batched j d = s.queued j d + s.batched j d) :
    UdpTurn s a s' j u
  | created : UdpTurn s a s' j .udpNew
  | linked {u : Udp} {n : Option ℕ} (hu : s.mem j = some (.udp u))
      (hcount : ∀ d, s'.queued j d + s'.batched j d = s.queued j d + s.batched j d) :
    UdpTurn s a s' j { u with next := n }
  | freed {u : Udp} {n : Option ℕ} (hu : s.mem j = some (.udp u))
      (hcount : ∀ d, s'.queued j d + s'.batched j d = s.queued j d + s.batched j d) :
    UdpTurn s a s' j { u with sock := none, deleted := true, next := n }
  | called {u : Udp} {c : UdpCall} {sys : Sys} (ha : a = .udp j c sys)
      (hu : s.mem j = some (.udp u))
      (hcount : ∀ d, s'.queued j d + s'.batched j d =
        s.queued j d + s.batched j d + submits (c.run u s.nextOp sys s.fresh).2.1 d) :
    UdpTurn s a s' j (c.run u s.nextOp sys s.fresh).1
  | offered {u : Udp} {d : Dir} {sys : Sys} {reported : List ℕ} {offers : List (ℕ × Dir)}
      (ha : a = .offer sys) (hp : s.phase = .polling reported ((j, d) :: offers))
      (hu : s.mem j = some (.udp u)) (hroom : s.batch.length < maxEvents)
      (hcount : ∀ e, e ≠ d → s'.queued j e + s'.batched j e = s.queued j e + s.batched j e) :
    UdpTurn s a s' j (u.reactorCb d sys).1
  | dispatched {u : Udp} {d : Dir} {sys : Sys} (hu : s.mem j = some (.udp u))
      (hcount : ∀ e, e ≠ d → s'.queued j e + s'.batched j e = s.queued j e + s.batched j e) :
    UdpTurn s a s' j (u.udpProactorCallback d sys).1

theorem Local.udpTurn (h : s.Local a s' j) (hstep : s.step a = some s')
    (hu' : s'.mem j = some (.udp u')) : s.UdpTurn a s' j u' := by
  have hstill : s.Still s' j →
      ∀ d, s'.queued j d + s'.batched j d = s.queued j d + s.batched j d :=
    fun hstill d ↦ by rw [hstill.queued, hstill.batched]
  cases h with
  | untouched hmem hs => exact .same (hmem.symm.trans hu') (hstill hs)
  | @created o hnone ho' hnew hq hb =>
    obtain rfl := Option.some.inj (ho'.symm.trans hu')
    rcases hnew with ⟨type, htype⟩ | ⟨x, fd, hclient⟩
    · cases type <;> cases htype
      exact .created
    · cases hclient
  | released hnone => rw [hnone] at hu'; cases hu'
  | polled _ hmem hbatch hmoved =>
    exact .same (hmem.symm.trans hu') fun d ↦ by rw [hmoved, hbatch, Nat.add_zero]
  | @linked o n _ ho ho' hs =>
    have heq := Option.some.inj (ho'.symm.trans hu')
    cases o with
    | udp u =>
      obtain rfl := Obj.udp.inj heq
      exact .linked ho (hstill hs)
    | tcp | async => cases heq
  | @freed o n _ ho hf hdefers ho' hs =>
    have heq := Option.some.inj (ho'.symm.trans hu')
    cases o with
    | udp u =>
      rw [Obj.freed, Udp.udpFree_eq] at heq
      obtain rfl := Obj.udp.inj heq
      exact .freed (u := u) ho (hstill hs)
    | tcp | async => cases heq
  | @udpCall u u₁ c sys effects ret ha ho hf hout ho' hq hb hpending =>
    subst ha
    obtain ⟨x, hx, -, -, rfl⟩ := (step_eq_some hstep).udpCall_eq
    rw [udpCall_mem] at hu'
    obtain rfl := Obj.udp.inj (Option.some.inj hu')
    refine .called rfl hx fun d ↦ ?_
    rw [hb, udpCall_queued, Nat.add_right_comm]
  | @udpOffer u d sys reported offers ha hp ho hnone ho' hq hb =>
    subst ha
    by_cases hroom : s.batch.length < maxEvents
    · obtain rfl := Obj.udp.inj (Option.some.inj (ho'.symm.trans hu'))
      refine .offered rfl hp ho hroom fun e he ↦ ?_
      rw [hq, hb, Function.update_of_ne he]
    · obtain ⟨hmem, hqueue, hbatch⟩ := step_offer_full hstep hroom
      refine .same ((congrFun hmem j).symm.trans hu') fun d ↦ ?_
      rw [queued_congr hqueue, batched_congr hbatch]
  | @udpDispatch u d sys rest ha ho hbatch ho' hq hb =>
    obtain rfl := Obj.udp.inj (Option.some.inj (ho'.symm.trans hu'))
    refine .dispatched ho fun e he ↦ ?_
    rw [hq, hb, Function.update_of_ne he]
  | tcpCall _ _ _ _ _ ho' | tcpTimeout _ _ _ _ _ ho' | tcpOffer _ _ _ _ ho'
  | tcpDispatch _ _ _ _ ho' | asyncStart _ _ ho' | asyncSend _ _ ho' | asyncOffer _ _ _ _ ho'
  | asyncDispatch _ _ _ ho' => cases Option.some.inj (ho'.symm.trans hu')

theorem UdpTurn.sameWrite (h : s.UdpTurn a s' j u')
    (hforeign : ∀ x, sent x ∈ s.udpRecords a → x.event ≠ j) :
    u'.onWrite = none ∨ ∃ u, s.mem j = some (.udp u) ∧ u.SameWrite u' ∧
      s'.queued j .write + s'.batched j .write = s.queued j .write + s.batched j .write := by
  cases h with
  | same hu hcount => exact .inr ⟨u', hu, .refl u', hcount .write⟩
  | created => exact .inl rfl
  | linked hu hcount =>
    exact .inr ⟨_, hu, .of_fields rfl rfl rfl rfl rfl rfl rfl rfl, hcount .write⟩
  | freed hu hcount => exact .inr ⟨_, hu, ⟨rfl, rfl, rfl, rfl, id, nofun⟩, hcount .write⟩
  | @called u c sys ha hu hcount =>
    have hquiet : u.Quiet (c.run u s.nextOp sys s.fresh) := by
      refine Udp.run_quiet fun b toAddr cb hc ↦ ?_
      refine Option.eq_none_iff_forall_ne_some.mpr fun y hy ↦ ?_
      refine hforeign ⟨j, some s.nextOp, y.sock.map Socket.fd, y.connected, y.family, b, toAddr,
        sys.io⟩ ?_ rfl
      rw [ha, hc, udpRecords, hu]
      dsimp only
      rw [hy]
      exact List.mem_cons_self
    refine .inr ⟨u, hu, hquiet.same, ?_⟩
    rw [hcount, hquiet.submits, Nat.add_zero]
  | @offered u d sys reported offers ha hp hu hroom hcount =>
    cases d with
    | read => exact .inr ⟨u, hu, Udp.reactorCbRead_sameWrite, hcount .write nofun⟩
    | write =>
      refine absurd rfl (hforeign ⟨j, u.onWrite, u.sock.map Socket.fd, u.connected, u.family,
        u.bufWrite, u.dest, sys.io⟩ ?_)
      rw [ha, udpRecords, hp]
      dsimp only
      rw [hu]
      dsimp only
      rw [if_pos hroom]
      exact List.mem_singleton_self _
  | @dispatched u d sys hu hcount =>
    cases d with
    | read => exact .inr ⟨u, hu, Udp.dispatchRead_sameWrite, hcount .write nofun⟩
    | write => exact .inl rfl

theorem UdpTurn.connectedOpen (h : s.UdpTurn a s' j u')
    (hopen : ∀ u, s.mem j = some (.udp u) → u.ConnectedOpen) : u'.ConnectedOpen := by
  cases h with
  | same hu => exact hopen u' hu
  | created | freed hu => exact nofun
  | @linked u n hu => exact hopen u hu
  | @called u c sys ha hu => exact (hopen u hu).run c
  | @offered u d sys reported offers ha hp hu =>
    obtain ⟨cr, cw, hcb⟩ := u.reactorCb_eq d sys
    rw [hcb]
    exact hopen u hu
  | @dispatched u d sys hu =>
    have hout := u.dispatch_outcome d sys
    generalize u.udpProactorCallback d sys = r at hout ⊢
    obtain ⟨x, effects⟩ := r
    dsimp only at hout ⊢
    cases hout with
    | read => exact hopen u hu
    | write hreg =>
      intro hlive hconnected hk
      exact hopen u hu hlive hconnected ((epollPollerModify_eq_none_iff hreg).mp hk)

/-- The callback of a read is the one of an earlier call, or of the call that is made. -/
theorem UdpTurn.onRead_cases {o : ℕ} (h : s.UdpTurn a s' j u') (ho : u'.onRead = some o) :
    (∃ u, s.mem j = some (.udp u) ∧ u.onRead = some o) ∨
      o = s.nextOp ∧ ∃ b sys, a = .udp j (.read b true) sys := by
  cases h with
  | same hu => exact .inl ⟨u', hu, ho⟩
  | created => cases ho
  | linked hu | freed hu => exact .inl ⟨_, hu, ho⟩
  | @called u c sys ha hu =>
    have hout : Udp.CallOutcome u s.nextOp s.fresh c (c.run u s.nextOp sys s.fresh).1
        (c.run u s.nextOp sys s.fresh).2.1 (c.run u s.nextOp sys s.fresh).2.2 := Udp.run_outcome c
    generalize c.run u s.nextOp sys s.fresh = r at hout ho
    obtain ⟨x, effects, ret⟩ := r
    dsimp only at hout ho
    cases hout with
    | @readStarted b hreading => exact .inr ⟨(Option.some.inj ho).symm, b, sys, ha⟩
    | quiet | writeQueued | writeDeferred => exact .inl ⟨u, hu, ho⟩
  | @offered u d sys reported offers ha hp hu =>
    obtain ⟨cr, cw, hcb⟩ := u.reactorCb_eq d sys
    rw [hcb] at ho
    exact .inl ⟨u, hu, ho⟩
  | @dispatched u d sys hu =>
    have hout := u.dispatch_outcome d sys
    generalize u.udpProactorCallback d sys = r at hout ho
    obtain ⟨x, effects⟩ := r
    dsimp only at hout ho
    cases hout with
    | read => cases ho
    | write hreg => exact .inl ⟨u, hu, ho⟩

theorem Steps.nextOp_le (hstep : s.Steps a s') (hw : s.Wf) : s.nextOp ≤ s'.nextOp := by
  cases hstep with
  | free => rw [eventFree_eq]
  | processEndgame hp hx => rw [hw.processEndgame_eq hx]
  | @dispatchTcp i t d rest sys =>
    unfold IoLoop.dispatchTcp
    rcases t.tcpProactorCallback d sys s.fresh with ⟨t', client, effects⟩
    cases client <;> exact le_rfl
  | tcp | udp | asyncStart => exact Nat.le_succ _
  | _ => exact le_rfl

/-! ### Callbacks -/

/-- The invocations of the callback of operation `o` by UDP events. -/
def callbacksOf (s : IoLoop) (o : ℕ) : List CallRecord :=
  s.calls.filter fun c ↦ c.type = .udp ∧ c.call.op = o

theorem callbacksOf_of_calls {type : EventType} {freed : Bool} {cs : List Call}
    (h : s'.calls = s.calls ++ cs.map fun c ↦ ⟨type, i, freed, c⟩)
    (hne : type ≠ .udp ∨ cs = []) (o : ℕ) : s'.callbacksOf o = s.callbacksOf o := by
  have hnil : (cs.map fun c ↦ (⟨type, i, freed, c⟩ : CallRecord)).filter
      (fun c ↦ c.type = .udp ∧ c.call.op = o) = [] := by
    refine List.filter_eq_nil_iff.mpr fun c hc ↦ ?_
    obtain ⟨x, hx, rfl⟩ := List.mem_map.mp hc
    rcases hne with hne | rfl
    · simp [hne]
    · cases hx
  rw [callbacksOf, h, List.filter_append, hnil, List.append_nil, callbacksOf]

theorem udpCall_call?_nil (c : UdpCall) (u : Udp) (op : ℕ) (sys : Sys) (fresh : Fresh) :
    (c.run u op sys fresh).2.1.filterMap IoEffect.call? = [] := by
  have hout : Udp.CallOutcome u op fresh c (c.run u op sys fresh).1 (c.run u op sys fresh).2.1
      (c.run u op sys fresh).2.2 := Udp.run_outcome c
  generalize c.run u op sys fresh = r at hout ⊢
  obtain ⟨u', effects, ret⟩ := r
  dsimp only at hout ⊢
  have hopening : ∀ {m k m' k' es}, Opening fresh m k m' k' es →
      es.filterMap IoEffect.call? = [] := by
    rintro m k m' k' es (_ | _) <;> rfl
  have hassert : ∀ x, (assertEffect x).filterMap IoEffect.call? = [] := by
    rintro (_ | _) <;> rfl
  cases hout with
  | readStarted => rfl
  | quiet hopen | writeDeferred hopen =>
    rw [List.filterMap_append, hopening hopen, hassert, List.append_nil]
  | writeQueued hopen =>
    rw [List.filterMap_append, hopening hopen]
    rfl

/-- A step invokes no callback of a UDP event, or it hands over the first completion of the batch
and invokes the callback that is stored for its direction. -/
theorem Steps.callbacks_cases (hstep : s.Steps a s') (hw : s.Wf) :
    (∀ o, s'.callbacksOf o = s.callbacksOf o) ∨
      ∃ i u d rest sys o, a = .dispatch sys ∧ s.batch = (i, d) :: rest ∧
        s.mem i = some (.udp u) ∧ s.freed i = false ∧ u.on d = some o ∧
        s'.mem i = some (.udp (u.udpProactorCallback d sys).1) ∧
        ∀ o', s'.callbacksOf o' = s.callbacksOf o' ++
          if o' = o then
            [⟨.udp, i, false, ⟨o, (u.ctx d).status, (u.buf d).buf, (u.ctx d).bytes, none⟩⟩]
          else [] := by
  cases hstep with
  | free => exact .inl fun o ↦ by rw [eventFree_eq]; rfl
  | processEndgame hp hx => exact .inl fun o ↦ by rw [hw.processEndgame_eq hx]; rfl
  | tcp | timeoutFires | offerTcp | asyncStart | dispatchAsync =>
    exact .inl (callbacksOf_of_calls rfl (.inl nofun))
  | @dispatchTcp i t d rest sys =>
    refine .inl ?_
    unfold IoLoop.dispatchTcp
    rcases t.tcpProactorCallback d sys s.fresh with ⟨t', client, effects⟩
    cases client <;> exact callbacksOf_of_calls rfl (.inl nofun)
  | @udp i u c sys =>
    exact .inl (callbacksOf_of_calls rfl (.inr (udpCall_call?_nil c u s.nextOp sys s.fresh)))
  | @dispatchUdp i u d rest sys hp hb ho =>
    have hcalls : (s.dispatchUdp i u d rest sys).calls = s.calls ++
        ((u.udpProactorCallback d sys).2.filterMap IoEffect.call?).map
          fun c ↦ ⟨.udp, i, s.freed i, c⟩ := rfl
    have hassert : (assertEffect (u.flag d)).filterMap IoEffect.call? = [] := by
      cases u.flag d <;> rfl
    have hdel : u.deleted = s.freed i := hw.memory.deleted ho
    rw [Udp.udpProactorCallback_effects, List.filterMap_append, hassert, List.nil_append,
      hdel] at hcalls
    cases hf : s.freed i with
    | true =>
      rw [hf] at hcalls
      exact .inl (callbacksOf_of_calls hcalls (.inr rfl))
    | false =>
      rw [hf] at hcalls
      cases hon : u.on d with
      | none =>
        rw [hon] at hcalls
        exact .inl (callbacksOf_of_calls hcalls (.inr rfl))
      | some o =>
        rw [hon] at hcalls
        refine .inr ⟨i, u, d, rest, sys, o, rfl, hb, ho, hf, hon, Function.update_self .., ?_⟩
        intro o'
        rw [callbacksOf, hcalls, List.filter_append, callbacksOf]
        congr 1
        by_cases ho' : o' = o
        · simp [ho', Udp.callAsserted, IoEffect.call?]
        · simp [ho', Ne.symm ho', Udp.callAsserted, IoEffect.call?]
  | _ => exact .inl fun o ↦ rfl

/-! ### The record and the events -/

/-- A write is pending and the socket is open, if the direction is the one of writing and the event
is a UDP event. -/
def UdpWriting (d : Dir) (o : Obj) : Prop :=
  ∀ u, o = .udp u → d = .write → u.writing = true ∧ u.sock ≠ none

theorem udpWriting_steady : Steady UdpWriting where
  send := by
    rintro d x written - u hu
    cases hu
  tcp := by
    rintro d e t sys fresh t' completed effects - - - u hu
    cases hu
  udp := by
    rintro d e u sys - h u' hu' he
    obtain ⟨cr, cw, hcb⟩ := u.reactorCb_eq d sys
    obtain rfl := Obj.udp.inj hu'
    rw [hcb]
    exact h u rfl he
  async := by
    rintro e x sys - - u hu
    cases hu

/-- Operation `o` is the pending write of event `i`. -/
structure PendingWrite (s : IoLoop) (l : List UdpRecord) (i : ℕ) (u : Udp) (o : ℕ) : Prop where
  started : UdpRecord.started ⟨o, i, u.bufWrite, u.dest⟩ ∈ l
  connected : u.dest = none → u.connected = true
  live : u.deleted = false → u.sock ≠ none ∧ ∀ addr, u.dest = some addr → u.family = addr.family
  uncalled : s.callbacksOf o = []
  sent : u.Sent l i (s.queued i .write + s.batched i .write) o

/-- The callback of a write is invoked at most once and before the event is freed, with the buffer
of the write; and if it reports success, one call has sent something for the write, to its
destination. -/
structure ServedWrite (s : IoLoop) (l : List UdpRecord) (w : UdpWrite) : Prop where
  once : (s.callbacksOf w.op).length ≤ 1
  right : ∀ c ∈ s.callbacksOf w.op, c.event = w.event ∧ c.freed = false ∧
    c.call.buf = w.buf.buf ∧ (c.call.status = 0 → 0 < c.call.bytes ∧
      ∃ x, sends w.op l = [x] ∧ x.Serves w c.call.bytes)

/-- What the record says about the UDP events of a loop. -/
structure SendLedger (s : IoLoop) (l : List UdpRecord) : Prop where
  wf : s.Wf
  udp : s.UdpInv fun v ↦ v.u.Registered ∧ v.Side .write
  offered : s.Offered UdpWriting
  opened : ∀ i u, s.mem i = some (.udp u) → u.ConnectedOpen
  pending : ∀ i u o, s.mem i = some (.udp u) → u.onWrite = some o → s.PendingWrite l i u o
  /-- A callback for reading does not belong to a write. -/
  reads : ∀ i u o, s.mem i = some (.udp u) → u.onRead = some o →
    o < s.nextOp ∧ ∀ w, UdpRecord.started w ∈ l → w.op ≠ o
  started : ∀ w, UdpRecord.started w ∈ l → w.op < s.nextOp ∧ s.ServedWrite l w
  unique : ∀ w w', UdpRecord.started w ∈ l → UdpRecord.started w' ∈ l → w.op = w'.op → w = w'
  unused : ∀ o, s.nextOp ≤ o → sends o l = [] ∧ s.callbacksOf o = []

theorem init_sendLedger : init.SendLedger [] where
  wf := init_wf
  udp := init_udpInv _
  offered := nofun
  opened := fun i u hu ↦ by cases hu
  pending := fun i u o hu ↦ by cases hu
  reads := fun i u o hu ↦ by cases hu
  started := nofun
  unique := nofun
  unused := fun _ _ ↦ ⟨rfl, rfl⟩

theorem of_started_mem {w : UdpWrite} (hw : UdpRecord.started w ∈ s.udpRecords a) :
    ∃ i b toAddr sys, a = .udp i (.write b toAddr true) sys ∧ w = ⟨s.nextOp, i, b, toAddr⟩ := by
  have hrec := recording_udpRecords s a
  generalize s.udpRecords a = new at hw hrec
  cases hrec with
  | nothing => cases hw
  | offered => simp at hw
  | @atOnce i u b toAddr sys x ho hx =>
    refine ⟨i, b, toAddr, sys, rfl, ?_⟩
    split at hw
    · simpa using hw
    · simp at hw

/-- What is sent is sent for the call that is made, or for the pending write of the event. -/
theorem of_sent_mem {x : KernelSend} (hx : UdpRecord.sent x ∈ s.udpRecords a) :
    (x.op = some s.nextOp ∧ ∃ i c sys, a = .udp i c sys) ∨
      ∃ u, s.mem x.event = some (.udp u) ∧ x.op = u.onWrite := by
  have hrec := recording_udpRecords s a
  generalize s.udpRecords a = new at hx hrec
  cases hrec with
  | nothing => cases hx
  | @offered i u sys reported offers hp ho hroom =>
    obtain rfl := UdpRecord.sent.inj (List.mem_singleton.mp hx)
    exact .inr ⟨u, ho, rfl⟩
  | @atOnce i u b toAddr sys y ho hy =>
    refine .inl ⟨?_, i, _, sys, rfl⟩
    rcases List.mem_cons.mp hx with hx | hx
    · rw [UdpRecord.sent.inj hx]
    · split at hx <;> simp at hx

theorem Steps.nextOp_of_udp {c : UdpCall} {sys : Sys} (hstep : s.Steps (.udp i c sys) s') :
    s'.nextOp = s.nextOp + 1 := by
  obtain ⟨u, -, -, -, rfl⟩ := hstep.udpCall_eq
  rfl

theorem Steps.offerUdp_eq {sys : Sys} {d : Dir} {reported : List ℕ} {offers : List (ℕ × Dir)}
    (hstep : s.Steps (.offer sys) s') (hp : s.phase = .polling reported ((i, d) :: offers))
    (hu : s.mem i = some (.udp u)) (hroom : s.batch.length < maxEvents) :
    u.reactorKernel d sys = true ∧ s'.mem i = some (.udp (u.reactorCb d sys).1) ∧
      (∀ o, s'.callbacksOf o = s.callbacksOf o) ∧
      s'.queued i d + s'.batched i d =
        s.queued i d + s.batched i d + if (u.reactorCb d sys).2 then 1 else 0 := by
  cases hstep with
  | @offerUdp j x e _ _ _ hp' hx hk =>
    obtain ⟨rfl, rfl⟩ := Prod.mk.inj (offer_unique hp hp')
    obtain rfl := Obj.udp.inj (Option.some.inj (hu.symm.trans hx))
    have hbatched : (s.offerUdp i u d sys).batched i = Function.update (s.batched i) d
        (s.batched i d + if (u.reactorCb d sys).2 then 1 else 0) := batched_of_completion rfl
    refine ⟨hk, Function.update_self .., fun _ ↦ rfl, ?_⟩
    show s.queued i d + (s.offerUdp i u d sys).batched i d = _
    rw [hbatched, Function.update_self, Nat.add_assoc]
  | offerTcp hp' hx | offerAsync hp' hx =>
    obtain ⟨rfl, -⟩ := Prod.mk.inj (offer_unique hp hp')
    cases Option.some.inj (hu.symm.trans hx)
  | offerFull hp' hfull => exact absurd hroom hfull

theorem Steps.callbacksOf_of_udp {c : UdpCall} {sys : Sys} (hstep : s.Steps (.udp i c sys) s')
    (hw : s.Wf) (o : ℕ) : s'.callbacksOf o = s.callbacksOf o := by
  rcases hstep.callbacks_cases hw with hsame | ⟨_, _, _, _, _, _, ha, _⟩
  · exact hsame o
  · cases ha

namespace SendLedger

/-- Nothing is sent for an operation that is not pending on an event for which something is sent. -/
theorem sends_eq {o : ℕ} (ho : o < s.nextOp)
    (hne : ∀ x u, UdpRecord.sent x ∈ s.udpRecords a → s.mem x.event = some (.udp u) →
      u.onWrite ≠ some o) : sends o (l ++ s.udpRecords a) = sends o l := by
  refine sends_append_of_ne fun x hx hop ↦ ?_
  rcases of_sent_mem hx with ⟨hnew, -⟩ | ⟨u, hu, hon⟩
  · exact ho.ne (Option.some.inj (hop.symm.trans hnew))
  · exact hne x u hx hu (hon.symm.trans hop)

/-- The callback of a pending write is not invoked by a step after which it is still pending. -/
theorem uncalled_step {o : ℕ} (h : s.SendLedger l) (hstep : s.Steps a s')
    (hp : s.PendingWrite l j u o) (hu' : s'.mem j = some (.udp u')) (ho : u'.onWrite = some o) :
    s'.callbacksOf o = [] := by
  rcases hstep.callbacks_cases h.wf with
    hsame | ⟨i, x, d, rest, sys, o', -, -, hx, -, hon, hmem, hcalls⟩
  · rw [hsame, hp.uncalled]
  · rw [hcalls, hp.uncalled, List.nil_append]
    refine if_neg ?_
    rintro rfl
    cases d with
    | read => exact (h.reads i x o hx hon).2 _ hp.started rfl
    | write =>
      have hown := (h.pending i x o hx hon).started
      obtain rfl : j = i := (UdpWrite.mk.inj (h.unique _ _ hp.started hown rfl)).2.1
      obtain rfl := Obj.udp.inj (Option.some.inj (hmem.symm.trans hu'))
      cases ho

theorem idle (h : s.SendLedger l) (hu : s.mem i = some (.udp u)) (hidle : u.writing = false) :
    u.onWrite = none ∧ s.queued i .write + s.batched i .write = 0 := by
  obtain ⟨hon, hcount⟩ := (h.udp i u hu).2
  have hflag : (s.udpView i u).u.flag .write = false := hidle
  rw [hflag] at hon hcount
  exact ⟨Option.isNone_iff_eq_none.mp (Option.isSome_eq_false_iff.mp hon), Nat.le_zero.mp hcount⟩

theorem atOnce {b : IoBuf} {toAddr : Option Addr} {sys : Sys} {x : Udp} {o : ℕ}
    (h : s.SendLedger l) (hstep : s.Steps (.udp i (.write b toAddr true) sys) s')
    (hu : s.mem i = some (.udp u)) (hx : u.Sending b toAddr (some s.nextOp) sys s.fresh x)
    (hu' : s'.mem i = some (.udp u')) (ho : u'.onWrite = some o) :
    s'.PendingWrite (l ++ (UdpRecord.sent ⟨i, some s.nextOp, x.sock.map Socket.fd, x.connected,
        x.family, b, toAddr, sys.io⟩ ::
      if (u.nanoevUdpWrite b toAddr (some s.nextOp) sys s.fresh).2.2 = .success then
        [.started ⟨s.nextOp, i, b, toAddr⟩]
      else [])) i u' o := by
  have hcalls := hstep.callbacksOf_of_udp h.wf s.nextOp
  obtain ⟨y, hy, -, hk, rfl⟩ := hstep.udpCall_eq
  obtain rfl := Obj.udp.inj (Option.some.inj (hu.symm.trans hy))
  rw [udpCall_mem] at hu'
  obtain rfl := Obj.udp.inj (Option.some.inj hu')
  obtain ⟨hsends, huncalled⟩ := h.unused s.nextOp le_rfl
  obtain ⟨effects, hsubmits, hrun⟩ := hx.run
  obtain ⟨hnone, hcount⟩ := h.idle hu hx.idle
  have hqueued := udpCall_queued s i u (.write b toAddr true) sys .write
  have hrun' : UdpCall.run (.write b toAddr true) u s.nextOp sys s.fresh = _ := hrun
  have hbatched : (s.udpCall i u (.write b toAddr true) sys).batched i .write =
      s.batched i .write := rfl
  rw [hrun', hsubmits] at hqueued
  rw [hrun'] at ho ⊢
  rw [hrun]
  obtain ⟨hout, hconnected, hdel, hfamily, hsock⟩ := Udp.startWrite_spec x b toAddr s.nextOp sys
  generalize x.startWrite b toAddr (some s.nextOp) sys = r at *
  obtain ⟨u', effects', ret⟩ := r
  dsimp only at *
  -- what the two successful outcomes have in common
  have hpending : ∀ l', u'.Holds s.nextOp b toAddr →
      u'.Sent l' i ((s.udpCall i u (.write b toAddr true) sys).queued i .write +
        (s.udpCall i u (.write b toAddr true) sys).batched i .write) s.nextOp →
      .started ⟨s.nextOp, i, b, toAddr⟩ ∈ l' →
      (s.udpCall i u (.write b toAddr true) sys).PendingWrite l' i u' s.nextOp := by
    intro l' hholds hsent hmem
    refine ⟨?_, fun hnone ↦ ?_, fun _ ↦ ⟨hsock hx.sock, fun addr haddr ↦ ?_⟩, ?_, hsent⟩
    · rw [hholds.bufWrite, hholds.dest]
      exact hmem
    · rw [hconnected]
      exact hx.peer (hholds.dest.symm.trans hnone)
    · rw [hfamily]
      exact hx.family addr (hholds.dest.symm.trans haddr)
    · rw [hcalls, huncalled]
  cases hout with
  | failed hret hon =>
    rw [← hx.onWrite, ← hon, ho] at hnone
    cases hnone
  | @queued n hio hholds hctx hsub =>
    obtain rfl := Option.some.inj (hholds.onWrite.symm.trans ho)
    refine hpending _ hholds ?_ (by simp)
    have hpos : 0 < n := by
      rw [UdpCall.kernel, hio, IoResult.sends, Bool.and_eq_true, decide_eq_true_eq] at hk
      exact hk.1
    have hone : 0 < (s.udpCall i u (.write b toAddr true) sys).queued i .write +
        (s.udpCall i u (.write b toAddr true) sys).batched i .write := by omega
    refine (if_pos ⟨hone, by rw [hctx]⟩).mpr ?_
    rw [hctx, hholds.bufWrite, hholds.dest]
    refine ⟨hpos, ⟨i, some s.nextOp, x.sock.map Socket.fd, x.connected, x.family, b, toAddr,
      sys.io⟩, ?_, rfl, rfl, rfl, rfl, ?_, hx.family, hx.peer, hio⟩
    · rw [sends_append, hsends]
      simp [sends, positive?, IoResult.positive, hio, hpos]
    · simpa using hx.sock
  | deferred hio hholds hsub =>
    obtain rfl := Option.some.inj (hholds.onWrite.symm.trans ho)
    refine hpending _ hholds ?_ (by simp)
    refine (if_neg fun hc ↦ ?_).mpr ?_
    · omega
    · rw [sends_append, hsends]
      simp [sends, positive?, IoResult.positive, hio]

theorem sendOffered {sys : Sys} {reported : List ℕ} {offers : List (ℕ × Dir)} {o : ℕ}
    (h : s.SendLedger l) (hstep : s.Steps (.offer sys) s')
    (hp : s.phase = .polling reported ((i, .write) :: offers)) (hu : s.mem i = some (.udp u))
    (hroom : s.batch.length < maxEvents) (hu' : s'.mem i = some (.udp u'))
    (ho : u'.onWrite = some o) :
    s'.PendingWrite (l ++ [UdpRecord.sent ⟨i, u.onWrite, u.sock.map Socket.fd, u.connected,
      u.family, u.bufWrite, u.dest, sys.io⟩]) i u' o := by
  obtain ⟨hk, hmem, hcalls, hcount⟩ := hstep.offerUdp_eq hp hu hroom
  obtain rfl := Obj.udp.inj (Option.some.inj (hmem.symm.trans hu'))
  obtain ⟨cr, cw, hcb⟩ := u.reactorCb_eq .write sys
  have hon : u.onWrite = some o := by
    rw [hcb] at ho
    exact ho
  have hpending := h.pending i u o hu hon
  obtain ⟨-, hsock⟩ := h.offered reported _ hp (i, .write) List.mem_cons_self _ hu u rfl rfl
  have hlive : u.deleted = false :=
    Bool.eq_false_of_not_eq_true fun hdel ↦ hsock ((h.udp i u hu).1.closed hdel)
  have hnone := (h.wf.traffic.offering hp).none_under_way
  have hunsent : sends o l = [] := (if_neg (by omega)).mp hpending.sent
  have hcalled : s'.callbacksOf o = [] := (hcalls o).trans hpending.uncalled
  have hmem := List.mem_append_left [UdpRecord.sent ⟨i, u.onWrite, u.sock.map Socket.fd,
    u.connected, u.family, u.bufWrite, u.dest, sys.io⟩] hpending.started
  have hzero : s.queued i .write + s.batched i .write = 0 := by omega
  rw [hzero, Nat.zero_add] at hcount
  rw [Udp.reactorCb_write] at hcount ⊢
  cases hio : sys.io with
  | done n =>
    have hpos : 0 < n := by
      rw [Udp.reactorKernel, hio, IoResult.sends, Bool.and_eq_true, decide_eq_true_eq] at hk
      exact hk.1
    rw [hio] at hcount hmem
    have hone : 0 < s'.queued i .write + s'.batched i .write := hcount ▸ Nat.one_pos
    refine ⟨hmem, hpending.connected, hpending.live, hcalled, (if_pos ⟨hone, rfl⟩).mpr ?_⟩
    refine ⟨hpos, ⟨i, u.onWrite, u.sock.map Socket.fd, u.connected, u.family, u.bufWrite, u.dest,
      .done n⟩, ?_, hon, rfl, rfl, rfl, ?_, (hpending.live hlive).2, hpending.connected, rfl⟩
    · rw [sends_append, hunsent]
      simp [sends, positive?, IoResult.positive, hon, hpos]
    · simpa using hsock
  | wouldBlock =>
    rw [hio] at hcount hmem
    have hzero : s'.queued i .write + s'.batched i .write = 0 := hcount
    refine ⟨hmem, hpending.connected, hpending.live, hcalled, (if_neg fun hc ↦ ?_).mpr ?_⟩
    · exact absurd hzero hc.1.ne'
    · rw [sends_append, hunsent]
      simp [sends, positive?, IoResult.positive]
  | failed e =>
    rw [hio] at hmem
    refine ⟨hmem, hpending.connected, hpending.live, hcalled, (if_neg fun hc ↦ e.2 hc.2).mpr ?_⟩
    rw [sends_append, hunsent]
    simp [sends, positive?, IoResult.positive]

theorem pending_step {o : ℕ} (h : s.SendLedger l) (hstep : s.step a = some s')
    (hu' : s'.mem j = some (.udp u')) (ho : u'.onWrite = some o) :
    s'.PendingWrite (l ++ s.udpRecords a) j u' o := by
  have hsteps := step_eq_some hstep
  by_cases hforeign : ∀ x, UdpRecord.sent x ∈ s.udpRecords a → x.event ≠ j
  · rcases ((hsteps.local h.wf j).udpTurn hstep hu').sameWrite hforeign with
      hnone | ⟨u, hu, hsame, hcount⟩
    · rw [hnone] at ho
      cases ho
    have hp := h.pending j u o hu (hsame.onWrite.symm.trans ho)
    -- what is sent in this step is sent for other operations, because the events differ
    have hsends : sends o (l ++ s.udpRecords a) = sends o l := by
      refine sends_eq (h.started _ hp.started).1 fun x y hx hy hon ↦ ?_
      have hown := (h.pending x.event y o hy hon).started
      exact hforeign x hx (UdpWrite.mk.inj (h.unique _ _ hown hp.started rfl)).2.1
    refine ⟨?_, fun hnone ↦ ?_, fun hlive ↦ ?_, h.uncalled_step hsteps hp hu' ho, ?_⟩
    · rw [hsame.bufWrite, hsame.dest]
      exact List.mem_append_left _ hp.started
    · exact hsame.connected (hp.connected (hsame.dest.symm.trans hnone))
    · obtain ⟨hlive', hkept⟩ := hsame.live hlive
      obtain ⟨hsock, hfamily⟩ := hp.live hlive'
      rw [(hkept hsock).2, hsame.dest]
      exact ⟨(hkept hsock).1, hfamily⟩
    · rw [hcount]
      exact hsame.sent hp.sent hsends
  · push Not at hforeign
    obtain ⟨x, hx, rfl⟩ := hforeign
    have hrec := recording_udpRecords s a
    generalize s.udpRecords a = new at hx hrec ⊢
    cases hrec with
    | nothing => cases hx
    | @offered i u sys reported offers hp hu hroom =>
      obtain rfl := UdpRecord.sent.inj (List.mem_singleton.mp hx)
      exact h.sendOffered hsteps hp hu hroom hu' ho
    | @atOnce i u b toAddr sys y hu hy =>
      obtain rfl : x.event = i := by
        rcases List.mem_cons.mp hx with hx | hx
        · rw [UdpRecord.sent.inj hx]
        · split at hx <;> simp at hx
      exact h.atOnce hsteps hu hy hu' ho

theorem reads_step {o : ℕ} (h : s.SendLedger l) (hstep : s.step a = some s')
    (hu' : s'.mem j = some (.udp u')) (ho : u'.onRead = some o) :
    o < s'.nextOp ∧ ∀ w, UdpRecord.started w ∈ l ++ s.udpRecords a → w.op ≠ o := by
  have hsteps := step_eq_some hstep
  rcases ((hsteps.local h.wf j).udpTurn hstep hu').onRead_cases ho with
    ⟨u, hu, hon⟩ | ⟨rfl, b, sys, rfl⟩
  · obtain ⟨hlt, hne⟩ := h.reads j u o hu hon
    refine ⟨hlt.trans_le (hsteps.nextOp_le h.wf), fun w hw ↦ ?_⟩
    rcases List.mem_append.mp hw with hw | hw
    · exact hne w hw
    · obtain ⟨i, b, toAddr, sys, -, rfl⟩ := of_started_mem hw
      exact hlt.ne'
  · refine ⟨by rw [hsteps.nextOp_of_udp]; exact Nat.lt_succ_self _, fun w hw ↦ ?_⟩
    -- a call of `nanoev_udp_read` records nothing
    exact (h.started w ((List.append_nil l) ▸ hw)).1.ne

theorem started_step {w : UdpWrite} (h : s.SendLedger l) (hstep : s.Steps a s')
    (hw : UdpRecord.started w ∈ l ++ s.udpRecords a) :
    w.op < s'.nextOp ∧ s'.ServedWrite (l ++ s.udpRecords a) w := by
  rcases List.mem_append.mp hw with hold | hnew
  · obtain ⟨hlt, hserved⟩ := h.started w hold
    refine ⟨hlt.trans_le (hstep.nextOp_le h.wf), ?_⟩
    -- an operation that has been called back is not pending, and nothing is sent for it
    have hkept : s'.callbacksOf w.op = s.callbacksOf w.op →
        s'.ServedWrite (l ++ s.udpRecords a) w := by
      intro hcalls
      refine ⟨by rw [hcalls]; exact hserved.once, fun c hc ↦ ?_⟩
      rw [hcalls] at hc
      have hsends : sends w.op (l ++ s.udpRecords a) = sends w.op l := by
        refine sends_eq hlt fun x u hx hu hon ↦ ?_
        rw [(h.pending x.event u w.op hu hon).uncalled] at hc
        cases hc
      rw [hsends]
      exact hserved.right c hc
    rcases hstep.callbacks_cases h.wf with
      hcalls | ⟨i, u, d, rest, sys, o, rfl, hb, hu, hf, hon, -, hcalls⟩
    · exact hkept (hcalls w.op)
    by_cases ho : w.op = o
    · subst ho
      cases d with
      | read => exact absurd rfl ((h.reads i u w.op hu hon).2 w hold)
      | write =>
        have hp := h.pending i u w.op hu hon
        have heq : _ = w := h.unique _ _ hp.started hold rfl
        have hcalls := hcalls w.op
        rw [hp.uncalled, List.nil_append, if_pos rfl] at hcalls
        have hpos : 0 < s.queued i .write + s.batched i .write :=
          Nat.add_pos_right _ (batched_pos hb)
        refine ⟨by rw [hcalls]; exact le_rfl, fun c hc ↦ ?_⟩
        rw [hcalls] at hc
        obtain rfl := List.mem_singleton.mp hc
        refine ⟨congrArg UdpWrite.event heq, rfl, congrArg (fun w ↦ w.buf.buf) heq, fun hzero ↦ ?_⟩
        have hsent := (if_pos ⟨hpos, hzero⟩).mp hp.sent
        rw [heq] at hsent
        exact (List.append_nil l).symm ▸ hsent
    · refine hkept ?_
      rw [hcalls, if_neg ho, List.append_nil]
  · obtain ⟨i, b, toAddr, sys, rfl, rfl⟩ := of_started_mem hnew
    have hnone : s'.callbacksOf s.nextOp = [] :=
      (hstep.callbacksOf_of_udp h.wf _).trans (h.unused s.nextOp le_rfl).2
    refine ⟨by rw [hstep.nextOp_of_udp]; exact Nat.lt_succ_self _, ?_, ?_⟩
    · rw [hnone]
      exact Nat.zero_le _
    · rw [hnone]
      exact nofun

theorem step (h : s.SendLedger l) (ha : s.interestDropped a = true) (hstep : s.step a = some s') :
    s'.SendLedger (l ++ s.udpRecords a) where
  wf := (step_eq_some hstep).wf h.wf
  udp := by
    refine h.udp.step
      (A := fun v act ↦ act.takesBack v ∧ (act = .offer .write → v.u.flag .write = true)) h.wf hstep
      (fun v hv ↦ ⟨hv.registered, hv.side .write⟩)
      (fun v act v' hudp hv hact ↦ ⟨hudp.registered hv.1 hact.1, hudp.side hv.2 hact.2⟩) ?_
    intro i u act hu hdoes
    refine ⟨?_, ?_⟩
    · cases act with
      | dispatch d sys =>
        obtain ⟨rfl, rest, hb⟩ := hdoes
        cases d with
        | read => trivial
        | write => exact interestDropped_dispatch ha hb hu
      | _ => trivial
    · rintro rfl
      obtain ⟨sys, reported, offers, -, hp⟩ := hdoes
      exact (h.offered reported _ hp (i, .write) List.mem_cons_self _ hu u rfl rfl).1
  offered := by
    refine (step_eq_some hstep).offered h.wf h.offered udpWriting_steady ?_
    rintro i r o d rfl ho hr - he u rfl rfl
    exact ⟨writing_of_report (h.udp i u ho).1 hr he, sock_of_report hr⟩
  opened := fun j u' hu' ↦
    (((step_eq_some hstep).local h.wf j).udpTurn hstep hu').connectedOpen (h.opened j)
  pending := fun _ _ _ hu' ho ↦ h.pending_step hstep hu' ho
  reads := fun _ _ _ hu' ho ↦ h.reads_step hstep hu' ho
  started := fun _ hw ↦ h.started_step (step_eq_some hstep) hw
  unique := by
    -- an operation number is not used twice
    have hnew : ∀ w w', UdpRecord.started w ∈ l → UdpRecord.started w' ∈ s.udpRecords a →
        w.op ≠ w'.op := by
      intro w w' hw hw'
      obtain ⟨i, b, toAddr, sys, -, rfl⟩ := of_started_mem hw'
      exact (h.started w hw).1.ne
    intro w w' hw hw' hop
    rcases List.mem_append.mp hw with hw | hw
    · rcases List.mem_append.mp hw' with hw' | hw'
      · exact h.unique w w' hw hw' hop
      · exact absurd hop (hnew w w' hw hw')
    · rcases List.mem_append.mp hw' with hw' | hw'
      · exact absurd hop.symm (hnew w' w hw' hw)
      · obtain ⟨i, b, toAddr, sys, rfl, rfl⟩ := of_started_mem hw
        obtain ⟨i', b', toAddr', sys', ha', rfl⟩ := of_started_mem hw'
        obtain ⟨rfl, hc, -⟩ := Action.udp.inj ha'
        obtain ⟨rfl, rfl, -⟩ := UdpCall.write.inj hc
        rfl
  unused := by
    intro o ho
    -- a number that is unused after the step was unused before
    have hsteps := step_eq_some hstep
    have hle : s.nextOp ≤ o := (hsteps.nextOp_le h.wf).trans ho
    obtain ⟨hsends, hcalls⟩ := h.unused o hle
    refine ⟨?_, ?_⟩
    · rw [sends_append_of_ne fun x hx hop ↦ ?_, hsends]
      rcases of_sent_mem hx with ⟨hnew, i, c, sys, rfl⟩ | ⟨u, hu, hon⟩
      · obtain rfl := Option.some.inj (hop.symm.trans hnew)
        rw [hsteps.nextOp_of_udp] at ho
        omega
      · have hlt := (h.started _ (h.pending _ u o hu (hon.symm.trans hop)).started).1
        exact absurd hlt hle.not_gt
    · rcases hsteps.callbacks_cases h.wf with
        hsame | ⟨i, u, d, rest, sys, o', -, -, hu, -, hon, -, hcalled⟩
      · rw [hsame, hcalls]
      · rw [hcalled, hcalls, List.nil_append]
        refine if_neg ?_
        rintro rfl
        cases d with
        | read => exact absurd (h.reads i u o hu hon).1 hle.not_gt
        | write =>
          exact absurd (h.started _ (h.pending i u o hu hon).started).1 hle.not_gt

end SendLedger

/-- **UDP writes are sent once, and to where they are meant to go**, in a run in which `epoll_ctl`
takes back the interest in writing when a write is completed. For every call of `nanoev_udp_write`
that has returned success, `on_write` has been invoked at most once, by the event of the call,
before it was freed, with the buffer of the call. If it has reported success, exactly one call of
`send` or `sendto` has sent something for the write, with its buffer and its length, by `sendto` to
the address that was given, or by `send` on the socket of a connected event if none was given.
Moreover, as long as an event is not freed it has a socket if it is connected, so that a write
without an address does not open one. -/
theorem udpWrites_exact
    (h : Reachable (recording step udpRecords) (fun x a ↦ x.1.interestDropped a = true) (init, [])
      (s, l)) :
    (∀ w, UdpRecord.started w ∈ l → (s.callbacksOf w.op).length ≤ 1 ∧
      ∀ c ∈ s.callbacksOf w.op, c.event = w.event ∧ c.freed = false ∧ c.call.buf = w.buf.buf ∧
        (c.call.status = 0 → 0 < c.call.bytes ∧
          ∃ x, sends w.op l = [x] ∧ x.Serves w c.call.bytes)) ∧
      ∀ i u, s.mem i = some (.udp u) → s.freed i = false → u.connected = true →
        u.sock ≠ none ∧ ∀ family sys fresh, u.openUdpSocket family sys fresh = (u, [], none) := by
  have hledger : s.SendLedger l :=
    h.invariant (I := fun x : IoLoop × List UdpRecord ↦ x.1.SendLedger x.2) init_sendLedger
      fun x a y hx ha hstep ↦ by
        obtain ⟨hstep, hl⟩ := recording_eq_some hstep
        rw [hl]
        exact hx.step ha hstep
  refine ⟨fun w hw ↦ ?_, fun i u hu hf hconnected ↦ ?_⟩
  · obtain ⟨-, hserved⟩ := hledger.started w hw
    exact ⟨hserved.once, hserved.right⟩
  · have hlive : u.deleted = false := (hledger.wf.memory.deleted hu).trans hf
    have hopen := hledger.opened i u hu hlive hconnected
    exact ⟨hopen, fun family sys fresh ↦ Udp.openUdpSocket_of_sock hopen family⟩

/-- A connected event writes to its peer at once, and then to another address, for which it has to
wait until the socket is writable. In between another write and another peer are refused, and a
datagram arrives that nobody has asked for. -/
def writeTwice : List Action :=
  [.new .udp, .udp 0 (.connect (some ⟨2, 7⟩)) (.ok 0), .udp 0 (.write ⟨8, 4⟩ none true) (.ok 8),
    .runEnter, .processEndgame, .takeQueued, .dispatch (.ok 0),
    .udp 0 (.write ⟨6, 5⟩ (some ⟨2, 9⟩) true) { Sys.ok 0 with io := .wouldBlock },
    .udp 0 (.write ⟨3, 6⟩ none true) (.ok 3), .udp 0 (.connect (some ⟨2, 8⟩)) (.ok 0),
    .callbackReturn, .nextRound, .processEndgame, .epollWait, .report 0 .readable, .offer (.ok 0),
    .pollReturn, .dispatch (.ok 0), .nextRound, .processEndgame, .epollWait, .report 0 .writable,
    .offer (.ok 6), .pollReturn, .dispatch (.ok 0), .callbackReturn]

theorem udpWrites_exact_writeTwice :
    ∃ s l, exec (recording step udpRecords) (fun x a ↦ x.1.interestDropped a = true) (init, [])
        writeTwice = some (s, l) ∧
      l = [.sent ⟨0, some 1, some 3, true, 2, ⟨8, 4⟩, none, .done 8⟩,
        .started ⟨1, 0, ⟨8, 4⟩, none⟩,
        .sent ⟨0, some 2, some 3, true, 2, ⟨6, 5⟩, some ⟨2, 9⟩, .wouldBlock⟩,
        .started ⟨2, 0, ⟨6, 5⟩, some ⟨2, 9⟩⟩,
        .sent ⟨0, some 2, some 3, true, 2, ⟨6, 5⟩, some ⟨2, 9⟩, .done 6⟩] ∧
      s.callbacksOf 1 = [⟨.udp, 0, false, ⟨1, 0, 4, 8, none⟩⟩] ∧
      s.callbacksOf 2 = [⟨.udp, 0, false, ⟨2, 0, 5, 6, none⟩⟩] ∧
      ∀ w, UdpRecord.started w ∈ l → (s.callbacksOf w.op).length ≤ 1 := by
  have hrun : ((exec (recording step udpRecords) (fun x a ↦ x.1.interestDropped a = true)
      (init, []) writeTwice).map fun x ↦ (x.2, x.1.callbacksOf 1, x.1.callbacksOf 2)) = some
      ([.sent ⟨0, some 1, some 3, true, 2, ⟨8, 4⟩, none, .done 8⟩,
        .started ⟨1, 0, ⟨8, 4⟩, none⟩,
        .sent ⟨0, some 2, some 3, true, 2, ⟨6, 5⟩, some ⟨2, 9⟩, .wouldBlock⟩,
        .started ⟨2, 0, ⟨6, 5⟩, some ⟨2, 9⟩⟩,
        .sent ⟨0, some 2, some 3, true, 2, ⟨6, 5⟩, some ⟨2, 9⟩, .done 6⟩],
        [⟨.udp, 0, false, ⟨1, 0, 4, 8, none⟩⟩], [⟨.udp, 0, false, ⟨2, 0, 5, 6, none⟩⟩]) := by
    decide +kernel
  obtain ⟨⟨s, l⟩, hs, hfields⟩ := Option.map_eq_some_iff.mp hrun
  obtain ⟨hl, hcalls⟩ := Prod.mk.inj hfields
  obtain ⟨hfirst, hsecond⟩ := Prod.mk.inj hcalls
  obtain ⟨hserved, -⟩ := udpWrites_exact (Reachable.of_exec hs)
  exact ⟨s, l, hs, hl, hfirst, hsecond, fun w hw ↦ (hserved w hw).1⟩

end IoLoop

end Nanoev
