import Nanoev.Io.Transfer
import Nanoev.Memory.Holdings

/-!
# The descriptors of accepted connections

The books of a loop: what has been opened is what has been closed together with what the events
hold, and the user data that has been allocated is what has been freed together with what has been
handed to the client. Every step keeps the books, as long as the system calls that
`tcp_alloc_client` makes on the descriptor of a new connection succeed. A descriptor that `accept`
has returned is then in one place: in an event that was passed to `on_accept`, in the listener that
waits for the completion, or it has been closed, once.

When such a system call fails, `tcp_alloc_client` frees the half-built event, which closes the
descriptor, and the error path of the completion closes it again.
-/

namespace Nanoev

open Memory Transition

namespace IoLoop

/-- The descriptors of an event that `accept` has returned came with the event, which was then
passed to `on_accept`. -/
def Owned (accepted : List ℕ) (calls : List CallRecord) (i : ℕ) (o : Obj) : Prop :=
  ∀ fd ∈ o.own, fd ∈ accepted → o.type = .tcp ∧ ∃ c ∈ calls, c.call.newEvent = some i

theorem Owned.mono {accepted : List ℕ} {calls : List CallRecord} {i : ℕ} {o o' : Obj}
    (h : Owned accepted calls i o) (hown : ∀ fd ∈ o'.own, fd ∈ o.own) (htype : o'.type = o.type) :
    Owned accepted calls i o' := by
  intro fd hfd hacc
  rw [htype]
  exact h fd (hown fd hfd) hacc

structure Books (s : IoLoop) : Prop where
  descriptors : ∀ fd,
    s.opened.count fd = s.closed.count fd + total Obj.descriptors s.mem s.nextEvent fd
  opened : Issued s.opened s.nextFd
  accepted : s.accepted ⊆ s.opened
  owners : ∀ i o, s.mem i = some o → Owned s.accepted s.calls i o
  userdata : ∀ u, s.userdataAllocated.count u =
    s.userdataFreed.count u + s.userdataHanded.count u
  allocated : Issued s.userdataAllocated s.nextUserdata

theorem init_books : init.Books where
  descriptors := fun fd ↦ (total_zero Obj.descriptors init.mem fd).symm
  opened := issued_nil _
  accepted := List.nil_subset _
  owners := by
    intro i o ho
    cases ho
  userdata := fun _ ↦ rfl
  allocated := issued_nil _

theorem own_subset (o : Obj) : o.own ⊆ o.descriptors := by
  cases o with
  | tcp t => exact List.subset_append_left _ _
  | udp u | async a => exact List.Subset.refl _

/-! ## What the events hold -/

section Held

variable {s : IoLoop} {i : ℕ} {o : Obj}

theorem total_put (hm : s.Memory) (ho : s.mem i = some o) (o' : Obj) (fd : ℕ) :
    total Obj.descriptors (s.put i o').mem s.nextEvent fd + o.descriptors.count fd =
      total Obj.descriptors s.mem s.nextEvent fd + o'.descriptors.count fd := by
  have hupdate := total_update Obj.descriptors s.mem fd (hm.lt ho) (some o')
  rwa [ho] at hupdate

/-- What they hold after a function has worked on one of them, which may have led to the event of a
new connection. -/
theorem total_act (hm : s.Memory) (ho : s.mem i = some o) (o' : Obj) (client : Option Tcp)
    (type : EventType) (effects : List IoEffect) (fd : ℕ) :
    total Obj.descriptors
        (((s.perform type i effects).put i o').addClient s.nextEvent client).mem
        (s.nextEvent + 1) fd + o.descriptors.count fd =
      total Obj.descriptors s.mem s.nextEvent fd + o'.descriptors.count fd +
        (client.elim [] fun c ↦ (Obj.tcp c).descriptors).count fd := by
  have hput := total_put hm ho o' fd
  have hnone : ∀ j, s.nextEvent ≤ j → (s.put i o').mem j = none := by
    intro j hj
    rw [put_mem, Function.update_of_ne (hm.lt ho |>.trans_le hj).ne']
    exact hm.mem_lt hj
  have hgrow : total Obj.descriptors (s.put i o').mem (s.nextEvent + 1) fd =
      total Obj.descriptors (s.put i o').mem s.nextEvent fd := total_grow (Nat.le_succ _) hnone
  cases client with
  | none =>
    show total Obj.descriptors (s.put i o').mem (s.nextEvent + 1) fd + _ = _
    rw [hgrow, Option.elim_none, List.count_nil]
    exact hput
  | some c =>
    have hclient := total_update Obj.descriptors (s.put i o').mem fd (Nat.lt_add_one s.nextEvent)
      (some (.tcp c))
    rw [hnone _ le_rfl, heldAt, heldAt, List.count_nil, hgrow] at hclient
    show total Obj.descriptors (Function.update (s.put i o').mem s.nextEvent (some (.tcp c)))
      (s.nextEvent + 1) fd + _ = _
    rw [Option.elim_some]
    omega

theorem total_eventNew (hm : s.Memory) (type : EventType) (fd : ℕ) :
    total Obj.descriptors (s.eventNew type).mem (s.nextEvent + 1) fd =
      total Obj.descriptors s.mem s.nextEvent fd := by
  have hupdate := total_update Obj.descriptors s.mem fd (Nat.lt_add_one s.nextEvent)
    (some (.new type))
  have hgrow : total Obj.descriptors s.mem (s.nextEvent + 1) fd =
      total Obj.descriptors s.mem s.nextEvent fd := total_grow (Nat.le_succ _) fun j ↦ hm.mem_lt
  have hnew : (heldAt Obj.descriptors (some (Obj.new type))).count fd = 0 := by
    cases type <;> rfl
  rw [hm.mem_lt le_rfl, hnew, hgrow, heldAt, List.count_nil] at hupdate
  exact hupdate

theorem total_eventFree (hm : s.Memory) (ho : s.mem i = some o) (he : o.Emptied) (fd : ℕ) :
    total Obj.descriptors (s.eventFree i o).mem s.nextEvent fd + o.freeCloses.count fd =
      total Obj.descriptors s.mem s.nextEvent fd := by
  rw [Local.eventFree_mem]
  split
  · next hdefers =>
    have hupdate := total_update Obj.descriptors s.mem fd (hm.lt ho) (some (o.freed.setProactor
      { o.freed.proactor with deleted := true, next := s.endgameHead }))
    have hfreed := o.freed_descriptors
      { o.freed.proactor with deleted := true, next := s.endgameHead } hdefers fd
    rw [ho, heldAt, heldAt] at hupdate
    omega
  · next hdefers =>
    have hupdate := total_update Obj.descriptors s.mem fd (hm.lt ho) none
    rw [ho, heldAt, heldAt, List.count_nil] at hupdate
    rw [o.freeCloses_eq he (Bool.eq_false_of_not_eq_true hdefers)]
    exact hupdate

theorem Swept.total_eq {s' : IoLoop} {gone relisted : List ℕ} (hs : s.Swept gone relisted s')
    (hm : s.Memory) (hnodup : gone.Nodup)
    (hgone : ∀ j ∈ gone, ∃ o, s.mem j = some o ∧ o.Emptied ∧ o.freeDefers = false) (fd : ℕ) :
    total Obj.descriptors s'.mem s.nextEvent fd + (gone.flatMap s.freeCloses).count fd =
      total Obj.descriptors s.mem s.nextEvent fd := by
  have hcloses : gone.flatMap s.freeCloses =
      gone.flatMap fun j ↦ heldAt Obj.descriptors (s.mem j) := by
    refine List.flatMap_congr fun j hj ↦ ?_
    obtain ⟨o, ho, he, hdefers⟩ := hgone j hj
    rw [IoLoop.freeCloses, ho]
    exact o.freeCloses_eq he hdefers
  rw [hcloses]
  refine total_remove Obj.descriptors s.mem fd hnodup (fun j hj ↦ ?_) hs.gone_mem fun j hj ↦ ?_
  · obtain ⟨o, ho, -⟩ := hgone j hj
    exact hm.lt ho
  · obtain ⟨n, hn⟩ := hs.links j hj
    rw [hn]
    cases s.mem j with
    | none => rfl
    | some o => exact o.withNext_descriptors n

end Held

namespace Books

variable {s : IoLoop} {i : ℕ} {o o' : Obj} {client : Option Tcp} {effects : List IoEffect}

theorem mem_opened (h : s.Books) (hm : s.Memory) (ho : s.mem i = some o) {fd : ℕ}
    (hfd : fd ∈ o.descriptors) : fd ∈ s.opened := by
  have hle := count_le_total Obj.descriptors s.mem fd (hm.lt ho)
  rw [ho] at hle
  have hpos : 0 < o.descriptors.count fd := List.count_pos_iff.mpr hfd
  have hsum := h.descriptors fd
  have hheld : heldAt Obj.descriptors (some o) = o.descriptors := rfl
  rw [hheld] at hle
  exact List.count_pos_iff.mp (by omega)

/-- **A function works on an event** and keeps the books. -/
theorem act (h : s.Books) (hm : s.Memory) (ho : s.mem i = some o)
    (htr : Transfer s.fresh o o' client effects) (htype : o'.type = o.type) (type : EventType) :
    (((s.perform type i effects).put i o').addClient s.nextEvent client).Books := by
  have hnew : ∀ fd ∈ openedBy effects, s.nextFd ≤ fd := fun fd hfd ↦
    (List.mem_range'_1 (n := 2)).mp (htr.opened.subset hfd) |>.1
  have hsum : ∀ fd, (s.opened ++ openedBy effects).count fd =
      (s.closed ++ closedBy effects).count fd + total Obj.descriptors
        (((s.perform type i effects).put i o').addClient s.nextEvent client).mem
        (s.nextEvent + 1) fd := by
    intro fd
    have hsum := h.descriptors fd
    have htr := htr.descriptors fd
    have hact := total_act hm ho o' client type effects fd
    rw [List.count_append, List.count_append]
    omega
  have hopened : Issued (s.opened ++ openedBy effects) (s.nextFd + 2) := h.opened.append htr.opened
  have hallocated : Issued (s.userdataAllocated ++ allocatedBy effects) (s.nextUserdata + 1) :=
    h.allocated.append htr.allocated
  have haccepted : s.accepted ++ acceptedBy effects ⊆ s.opened ++ openedBy effects := by
    intro fd hfd
    rw [List.mem_append] at hfd ⊢
    exact hfd.imp (@h.accepted fd) (@acceptedBy_subset effects fd)
  -- a descriptor that is in use is not one that is opened now
  have hold : ∀ j x, s.mem j = some x → Owned (s.accepted ++ acceptedBy effects)
      (s.perform type i effects).calls j x := by
    intro j x hx fd hfd hacc
    rcases List.mem_append.mp hacc with hacc | hacc
    · obtain ⟨hxt, c, hc, hcall⟩ := h.owners j x hx fd hfd hacc
      exact ⟨hxt, c, List.mem_append_left _ hc, hcall⟩
    · have hmem := h.mem_opened hm hx (own_subset x hfd)
      exact absurd (h.opened.lt fd hmem) (Nat.not_lt.mpr (hnew fd (acceptedBy_subset effects hacc)))
  have howners : ∀ j x, Function.update s.mem i (some o') j = some x →
      Owned (s.accepted ++ acceptedBy effects) (s.perform type i effects).calls j x := by
    refine forall_update hold fun x hx fd hfd hacc ↦ ?_
    obtain rfl := Option.some.inj hx
    rcases htr.own fd hfd with hfd | ⟨hfd, hnot⟩
    · rw [htype]
      exact hold i o ho fd hfd hacc
    · have hacc := (List.mem_append.mp hacc).resolve_right hnot
      exact absurd (h.opened.lt fd (h.accepted hacc)) (Nat.not_lt.mpr (hnew fd hfd))
  cases client with
  | none =>
    refine ⟨hsum, hopened, haccepted, howners, fun u ↦ ?_, hallocated⟩
    show (s.userdataAllocated ++ allocatedBy effects).count u =
      (s.userdataFreed ++ freedBy effects).count u + s.userdataHanded.count u
    have hsum := h.userdata u
    have htr := htr.userdata u
    rw [Option.bind_none, Option.toList_none, List.count_nil] at htr
    rw [List.count_append, List.count_append]
    omega
  | some c =>
    refine ⟨hsum, hopened, haccepted, forall_update howners fun x hx fd hfd hacc ↦ ?_,
      fun u ↦ ?_, hallocated⟩
    · obtain rfl := Option.some.inj hx
      obtain ⟨call, hcall, hnewEvent⟩ := htr.handed (Option.some_ne_none c)
      refine ⟨rfl, ⟨type, i, s.freed i, call⟩, List.mem_append_right _ ?_, hnewEvent⟩
      exact List.mem_map_of_mem (List.mem_filterMap.mpr ⟨_, hcall, rfl⟩)
    · show (s.userdataAllocated ++ allocatedBy effects).count u =
        (s.userdataFreed ++ freedBy effects).count u +
          (s.userdataHanded ++ c.userdata.toList).count u
      have hsum := h.userdata u
      have htr := htr.userdata u
      rw [Option.bind_some] at htr
      rw [List.count_append, List.count_append, List.count_append]
      omega

theorem put (h : s.Books) (hm : s.Memory) (ho : s.mem i = some o)
    (hd : o'.descriptors = o.descriptors) (hown : o'.own = o.own) (htype : o'.type = o.type) :
    (s.put i o').Books where
  descriptors := by
    intro fd
    show s.opened.count fd = s.closed.count fd +
      total Obj.descriptors (s.put i o').mem s.nextEvent fd
    have hput := total_put hm ho o' fd
    have hsum := h.descriptors fd
    rw [hd] at hput
    omega
  opened := h.opened
  accepted := h.accepted
  owners := by
    refine forall_update h.owners fun x hx ↦ ?_
    obtain rfl := Option.some.inj hx
    exact (h.owners i o ho).mono (fun fd hfd ↦ hown ▸ hfd) htype
  userdata := h.userdata
  allocated := h.allocated

theorem eventNew (h : s.Books) (hm : s.Memory) (type : EventType) : (s.eventNew type).Books where
  descriptors := by
    intro fd
    show s.opened.count fd = s.closed.count fd +
      total Obj.descriptors (s.eventNew type).mem (s.nextEvent + 1) fd
    rw [total_eventNew hm]
    exact h.descriptors fd
  opened := h.opened
  accepted := h.accepted
  owners := by
    refine forall_update h.owners fun x hx fd hfd ↦ ?_
    obtain rfl := Option.some.inj hx
    cases type <;> cases hfd
  userdata := h.userdata
  allocated := h.allocated

theorem eventFree (h : s.Books) (hm : s.Memory) (ho : s.mem i = some o) (he : o.Emptied) :
    (s.eventFree i o).Books := by
  have hsum : ∀ fd, s.opened.count fd = (s.closed ++ o.freeCloses).count fd +
      total Obj.descriptors (s.eventFree i o).mem s.nextEvent fd := by
    intro fd
    have hsum := h.descriptors fd
    have hfree := total_eventFree hm ho he fd
    rw [List.count_append]
    omega
  revert hsum
  unfold IoLoop.eventFree freeProactor
  dsimp only
  split
  · intro hsum
    refine ⟨hsum, h.opened, h.accepted, forall_update h.owners fun x hx ↦ ?_, h.userdata,
      h.allocated⟩
    obtain rfl := Option.some.inj hx
    exact (h.owners i o ho).mono (fun fd ↦ o.freed_own _) (by cases o <;> rfl)
  · intro hsum
    exact ⟨hsum, h.opened, h.accepted, forall_update h.owners (by simp), h.userdata, h.allocated⟩

theorem swept {s' : IoLoop} {gone relisted : List ℕ} (h : s.Books) (hs : s.Swept gone relisted s')
    (hnodup : gone.Nodup) (hgone : ∀ j ∈ gone, ∃ o, s.mem j = some o ∧ o.Emptied ∧
      o.freeDefers = false) (hm : s.Memory) : s'.Books := by
  have hsum := hs.total_eq hm hnodup hgone
  rw [hs.eq]
  refine ⟨fun fd ↦ ?_, h.opened, h.accepted, fun j x hx ↦ ?_, h.userdata, h.allocated⟩
  · show s.opened.count fd = (s.closed ++ gone.flatMap s.freeCloses).count fd +
      total Obj.descriptors s'.mem s.nextEvent fd
    have hbooks := h.descriptors fd
    have hsum := hsum fd
    rw [List.count_append]
    omega
  · by_cases hj : j ∈ gone
    · rw [show s'.mem j = none from hs.gone_mem j hj] at hx
      cases hx
    · obtain ⟨n, hn⟩ := hs.links j hj
      obtain ⟨o, ho, rfl⟩ := Option.map_eq_some_iff.mp (hn.symm.trans hx)
      refine (h.owners j o ho).mono (fun fd hfd ↦ ?_) (by cases o <;> rfl)
      rwa [o.withNext_own] at hfd

theorem congr {s' : IoLoop} (h : s.Books) (hmem : s'.mem = s.mem)
    (hnext : (s'.nextEvent, s'.nextFd, s'.nextUserdata) =
      (s.nextEvent, s.nextFd, s.nextUserdata))
    (hfds : (s'.opened, s'.accepted, s'.closed) = (s.opened, s.accepted, s.closed))
    (hcalls : s'.calls = s.calls)
    (huser : (s'.userdataAllocated, s'.userdataFreed, s'.userdataHanded) =
      (s.userdataAllocated, s.userdataFreed, s.userdataHanded)) : s'.Books := by
  simp only [Prod.mk.injEq] at hnext hfds huser
  obtain ⟨hevent, hfd, huserdata⟩ := hnext
  obtain ⟨hopened, haccepted, hclosed⟩ := hfds
  obtain ⟨hallocated, hfreed, hhanded⟩ := huser
  refine ⟨?_, ?_, ?_, ?_, ?_, ?_⟩
  · rw [hopened, hclosed, hmem, hevent]
    exact h.descriptors
  · rw [hopened, hfd]
    exact h.opened
  · rw [haccepted, hopened]
    exact h.accepted
  · rw [hmem, haccepted, hcalls]
    exact h.owners
  · rw [hallocated, hfreed, hhanded]
    exact h.userdata
  · rw [hallocated, huserdata]
    exact h.allocated

end Books

/-! ## The steps keep the books -/

/-- What the books rest on: descriptors are where the code looks for them. -/
structure Orderly (s : IoLoop) : Prop where
  wf : s.Wf
  tcp : s.TcpInv TcpView.Accepting
  async : s.AsyncInv fun v ↦ v.a.Unstarted

theorem init_orderly : init.Orderly := ⟨init_wf, init_tcpInv _, init_asyncInv _⟩

theorem Orderly.step {s s' : IoLoop} {a : Action} (h : s.Orderly) (hstep : s.step a = some s') :
    s'.Orderly where
  wf := (step_eq_some hstep).wf h.wf
  tcp := h.tcp.step (A := fun _ _ ↦ True) h.wf hstep (fun _ hv ↦ hv.accepting)
    (fun _ _ _ htcp hv _ ↦ htcp.accepting hv) fun _ _ _ _ _ ↦ trivial
  async := h.async.step (A := fun _ _ ↦ True) h.wf hstep (fun _ ↦ ⟨rfl, rfl⟩)
    (fun _ _ _ hasync hv _ ↦ hasync.unstarted hv) fun _ _ _ _ _ ↦ trivial

theorem Orderly.emptied {s : IoLoop} {i : ℕ} {o : Obj} (h : s.Orderly) (ho : s.mem i = some o) :
    o.Emptied := by
  rintro t rfl hreading
  exact (h.tcp i t ho).held_eq_nil (.inr hreading)

theorem Orderly.emptied_of_judged {s : IoLoop} {l : List ℕ} (h : s.Orderly) (hl : s.Endgame l) :
    ∀ j ∈ s.judged .release l, ∃ o, s.mem j = some o ∧ o.Emptied ∧ o.freeDefers = false := by
  intro j hj
  obtain ⟨hjl, hv⟩ := List.mem_filter.mp hj
  obtain ⟨o, ho, -⟩ := hl.deleted j hjl
  rw [decide_eq_true_eq, verdict_eq ho] at hv
  exact ⟨o, ho, h.emptied ho, Obj.freeDefers_of_release hv⟩

theorem Orderly.held_of_offer {s : IoLoop} {i : ℕ} {t : Tcp} {d : Dir} {reported : List ℕ}
    {offers : List (ℕ × Dir)} (h : s.Orderly) (hp : s.phase = .polling reported ((i, d) :: offers))
    (ho : s.mem i = some (.tcp t)) (hd : d = .read) : t.readSlot.held = [] := by
  have hnone := (h.wf.traffic.offering hp).none_under_way
  subst hd
  by_contra hne
  obtain ⟨-, -, -, hpos⟩ := (h.tcp i t ho).slot hne
  have hpos : 0 < s.queued i .read + s.batched i .read := hpos
  omega

/-- A listener that gets a completion has accepted a connection or failed to. -/
theorem Orderly.slot_of_dispatch {s : IoLoop} {i : ℕ} {t : Tcp} {d : Dir} {rest : List (ℕ × Dir)}
    (h : s.Orderly) (hb : s.batch = (i, d) :: rest) (ho : s.mem i = some (.tcp t))
    (hconnected : t.connected = false) (hlistening : t.listening = true) :
    ∃ alloc fd, t.readSlot = .accept alloc fd := by
  have hbatch : 0 < s.batched i d := batched_pos hb
  have hu := (h.tcp i t ho).unconnected hconnected
  cases d with
  | read => exact (hu.accepts (hu.of_reads (Nat.add_pos_right _ hbatch))).2.2
  | write =>
    obtain ⟨alloc, halloc⟩ := (hu.connects hlistening (.inr (Nat.add_pos_right _ hbatch))).slot
    exact ⟨alloc, none, halloc⟩

theorem Orderly.held_of_lost {s : IoLoop} {i : ℕ} {t : Tcp} (h : s.Orderly)
    (ho : s.mem i = some (.tcp t)) (hlost : t.reading = false ∨ t.onAccept = none) :
    t.readSlot.held = [] := by
  by_contra hne
  obtain ⟨hconnected, -, hreading, -⟩ := (h.tcp i t ho).slot hne
  rcases hlost with hlost | hlost
  · exact absurd (hlost.symm.trans hreading) (by decide)
  · exact (((h.tcp i t ho).unconnected hconnected).accepts hreading).1 hlost

/-- Where the client does not find a new connection half built: on a completion of an accept that
reaches `tcp_alloc_client` and finds memory, the system calls on the new descriptor succeed. -/
def clientsBuilt (s : IoLoop) : Action → Bool
  | .dispatch sys =>
    match s.batch with
    | (i, d) :: _ =>
      match s.mem i with
      | some (.tcp t) => !t.buildsClient d sys || Tcp.clientBuilt sys
      | _ => true
    | [] => true
  | _ => true

variable {s s' : IoLoop} {a : Action}

theorem Books.dispatchTcp {i : ℕ} {t : Tcp} {d : Dir} {rest : List (ℕ × Dir)} {sys : Sys}
    (h : s.Books) (ho' : s.Orderly) (hb : s.batch = (i, d) :: rest)
    (ho : s.mem i = some (.tcp t))
    (hbuilt : t.buildsClient d sys = true → Tcp.clientBuilt sys = true) :
    (s.dispatchTcp i t d rest sys).Books := by
  have hout : Tcp.DispatchOutcome t d sys s.fresh _ _ _ := Tcp.dispatch_outcome d
  unfold IoLoop.dispatchTcp
  rcases hcb : t.tcpProactorCallback d sys s.fresh with ⟨t', client, effects⟩
  rw [hcb] at hout
  have htr : Transfer s.fresh (.tcp t) (.tcp t') client effects :=
    hout.transfer (ho'.slot_of_dispatch hb ho) (ho'.held_of_lost ho) hbuilt
  have hdeliver : (s.deliver i d rest).Books := h.congr rfl rfl rfl rfl rfl
  have hmemory : (s.deliver i d rest).Memory := ho'.wf.memory.frame rfl rfl rfl rfl rfl
  exact (hdeliver.act hmemory ho htr hout.kept.type .tcp).congr rfl rfl rfl rfl rfl

/-- **Every step keeps the books.** -/
theorem Steps.books (hstep : s.Steps a s') (ho' : s.Orderly) (h : s.Books)
    (hok : s.clientsBuilt a = true) : s'.Books := by
  have hm := ho'.wf.memory
  cases hstep with
  | new hp => exact h.eventNew hm _
  | free ho hf hp => exact h.eventFree hm ho (ho'.emptied ho)
  | @tcp i t c sys ho hf hp hk =>
    have hout : Tcp.CallOutcome t s.nextOp sys s.fresh c _ _ _ := Tcp.run_outcome c
    exact (h.act hm ho (hout.transfer (ho'.tcp i t ho).held_eq_nil) rfl _).congr rfl rfl rfl rfl rfl
  | @udp i u c sys ho hf hp hk =>
    have hout : Udp.CallOutcome u s.nextOp s.fresh c (c.run u s.nextOp sys s.fresh).1 _ _ :=
      Udp.run_outcome c
    exact (h.act hm ho hout.transfer rfl _).congr rfl rfl rfl rfl rfl
  | @asyncStart i x sys ho hf hp =>
    exact (h.act hm ho (Async.start_transfer (ho'.async i x ho)) rfl _).congr rfl rfl rfl rfl rfl
  | @asyncSend i x written ho hf hstarted =>
    exact h.put hm ho (Async.send_own written) (Async.send_own written) rfl
  | @timeoutFires i t d sys ho hp hactive =>
    have hout : Tcp.TimeoutOutcome t d sys _ _ := Tcp.timeout_outcome d
    exact (h.act hm ho hout.transfer rfl _).congr rfl rfl rfl rfl rfl
  | processEndgame hp hs =>
    obtain ⟨l, hl⟩ := hm.endgame
    obtain ⟨x, hx, -, hswept⟩ := hm.processEndgame hl
    obtain rfl := Option.some.inj (hs.symm.trans hx)
    exact (h.swept hswept (hl.nodup.filter _) (ho'.emptied_of_judged hl) hm).congr
      rfl rfl rfl rfl rfl
  | @offerTcp i t d sys reported offers hp ho hk =>
    have hout : Tcp.OfferOutcome t d sys s.fresh _ _ _ := Tcp.offer_outcome hk
    exact (h.act hm ho (hout.transfer (ho'.held_of_offer hp ho)) rfl _).congr rfl rfl rfl rfl rfl
  | @offerUdp i u d sys reported offers hp ho hk =>
    obtain ⟨cr, cw, hcb⟩ := Udp.reactorCb_eq u d sys
    have hown : (Obj.udp (u.reactorCb d sys).1).own = (Obj.udp u).own := by rw [hcb]; rfl
    have hput : (s.put i (.udp (u.reactorCb d sys).1)).Books := h.put hm ho hown hown rfl
    exact hput.congr rfl rfl rfl rfl rfl
  | @offerAsync i x d sys reported offers hp ho hk hd =>
    have hput : (s.put i (.async (x.reactorCb sys))).Books :=
      h.put hm ho (Async.reactorCb_own sys) (Async.reactorCb_own sys) rfl
    exact hput.congr rfl rfl rfl rfl rfl
  | @dispatchTcp i t d rest sys hp hb ho =>
    refine h.dispatchTcp ho' hb ho fun hbuilds ↦ ?_
    rw [clientsBuilt, hb] at hok
    dsimp only at hok
    rw [ho] at hok
    dsimp only at hok
    rwa [hbuilds, Bool.not_true, Bool.false_or] at hok
  | @dispatchUdp i u d rest sys hp hb ho =>
    have hdeliver : (s.deliver i d rest).Books := h.congr rfl rfl rfl rfl rfl
    have hmemory : (s.deliver i d rest).Memory := hm.frame rfl rfl rfl rfl rfl
    exact (hdeliver.act hmemory ho (Udp.dispatch_outcome u d sys).transfer rfl _).congr
      rfl rfl rfl rfl rfl
  | @dispatchAsync i x d rest sys hp hb ho =>
    have hdeliver : (s.deliver i d rest).Books := h.congr rfl rfl rfl rfl rfl
    have hmemory : (s.deliver i d rest).Memory := hm.frame rfl rfl rfl rfl rfl
    exact (hdeliver.act hmemory ho Async.dispatch_transfer rfl _).congr rfl rfl rfl rfl rfl
  | _ => exact h.congr rfl rfl rfl rfl rfl

/-! ## Where the descriptors are -/

/-- The descriptor is the socket of an event that was passed to `on_accept`. -/
def HandedOver (s : IoLoop) (fd : ℕ) : Prop :=
  ∃ i t, s.mem i = some (.tcp t) ∧ fd ∈ fdOf t.sock ∧
    ∃ c ∈ s.calls, c.call.newEvent = some i

/-- The descriptor waits in a listener for the completion of the accept. -/
def Awaiting (s : IoLoop) (fd : ℕ) : Prop :=
  ∃ i t, s.mem i = some (.tcp t) ∧ t.listening = true ∧ fd ∈ t.readSlot.held ∧
    (i, .read) ∈ s.queue ++ s.batch

/-- Every descriptor that `accept` has returned is in one place, and so is all user data. -/
structure Conserved (s : IoLoop) : Prop where
  descriptors : ∀ fd ∈ s.accepted,
    (s.HandedOver fd ∧ ¬s.Awaiting fd ∧ s.closed.count fd = 0) ∨
      (¬s.HandedOver fd ∧ s.Awaiting fd ∧ s.closed.count fd = 0) ∨
      (¬s.HandedOver fd ∧ ¬s.Awaiting fd ∧ s.closed.count fd = 1)
  userdata : ∀ u ∈ s.userdataAllocated,
    (s.userdataHanded.count u = 1 ∧ s.userdataFreed.count u = 0) ∨
      (s.userdataHanded.count u = 0 ∧ s.userdataFreed.count u = 1)

/-- The event that holds an accepted descriptor has it as its socket, and was passed to `on_accept`,
or has it in the field for an accept. -/
theorem Books.holder {i : ℕ} {o : Obj} {fd : ℕ} (h : s.Books) (ho : s.mem i = some o)
    (hacc : fd ∈ s.accepted) (hfd : fd ∈ o.descriptors) :
    ∃ t, o = .tcp t ∧ (fd ∈ fdOf t.sock ∧ (∃ c ∈ s.calls, c.call.newEvent = some i) ∨
      fd ∈ t.readSlot.held) := by
  have howned := h.owners i o ho fd
  cases o with
  | tcp t =>
    rcases List.mem_append.mp hfd with hfd | hfd
    · exact ⟨t, rfl, .inl ⟨hfd, (howned hfd hacc).2⟩⟩
    · exact ⟨t, rfl, .inr hfd⟩
  | udp u | async x => cases (howned hfd hacc).1

theorem Books.conserved (h : s.Books) (ho' : s.Orderly) : s.Conserved where
  descriptors := by
    intro fd hacc
    have hm := ho'.wf.memory
    have hheld : ∀ {i t}, s.mem i = some (.tcp t) → fd ∈ fdOf t.sock ∨ fd ∈ t.readSlot.held →
        i < s.nextEvent ∧ fd ∈ heldAt Obj.descriptors (s.mem i) := by
      intro i t ht hfd
      rw [ht]
      exact ⟨hm.lt ht, List.mem_append.mpr hfd⟩
    rcases returned_or_held (h.opened.count_eq_one (h.accepted hacc)) (h.descriptors fd) with
      ⟨hclosed, hnone⟩ | ⟨hclosed, i, hi, hone, honly⟩
    · refine .inr (.inr ⟨?_, ?_, hclosed⟩)
      · rintro ⟨i, t, ht, hfd, -⟩
        exact hnone i (hheld ht (.inl hfd)).1 (hheld ht (.inl hfd)).2
      · rintro ⟨i, t, ht, -, hfd, -⟩
        exact hnone i (hheld ht (.inr hfd)).1 (hheld ht (.inr hfd)).2
    · obtain ⟨o, ho⟩ : ∃ o, s.mem i = some o := by
        refine Option.ne_none_iff_exists'.mp fun hnone ↦ ?_
        rw [hnone] at hone
        cases hone
      rw [ho, heldAt] at hone
      obtain ⟨t, rfl, hplace⟩ := h.holder ho hacc (List.count_pos_iff.mp (by omega))
      rw [Obj.descriptors, List.count_append] at hone
      -- it is not in both fields of one event, nor in another event
      have hboth : fd ∈ fdOf t.sock → fd ∈ t.readSlot.held → False := by
        intro h₁ h₂
        have := List.count_pos_iff.mpr h₁
        have := List.count_pos_iff.mpr h₂
        omega
      have hsame : ∀ {j t'}, s.mem j = some (.tcp t') →
          fd ∈ fdOf t'.sock ∨ fd ∈ t'.readSlot.held → t' = t := by
        intro j t' ht' hfd
        obtain rfl := honly j (hheld ht' hfd).1 (hheld ht' hfd).2
        exact Obj.tcp.inj (Option.some.inj (ht'.symm.trans ho))
      rcases hplace with ⟨hsock, hcall⟩ | hslot
      · refine .inl ⟨⟨i, t, ho, hsock, hcall⟩, ?_, hclosed⟩
        rintro ⟨j, t', ht', -, hfd, -⟩
        obtain rfl := hsame ht' (.inr hfd)
        exact hboth hsock hfd
      · obtain ⟨-, hlistening, -, hway⟩ := (ho'.tcp i t ho).slot (List.ne_nil_of_mem hslot)
        refine .inr (.inl ⟨?_, ⟨i, t, ho, hlistening, hslot, mem_under_way.mpr hway⟩, hclosed⟩)
        rintro ⟨j, t', ht', hfd, -⟩
        obtain rfl := hsame ht' (.inl hfd)
        exact hboth hfd hslot
  userdata := by
    intro u hu
    have hone := h.allocated.count_eq_one hu
    have hsum := h.userdata u
    omega

/-- **Accepted descriptors are conserved** in every run in which the system calls on the descriptors
of new connections succeed, whatever else fails and whenever the listener is freed. -/
theorem conserved_of_clientsBuilt
    (h : Reachable step (fun s a ↦ s.clientsBuilt a = true) init s) : s.Conserved := by
  have hboth : s.Orderly ∧ s.Books := by
    refine h.invariant (I := fun s ↦ s.Orderly ∧ s.Books) ⟨init_orderly, init_books⟩
      fun s a s' hs hok hstep ↦ ?_
    exact ⟨hs.1.step hstep, (step_eq_some hstep).books hs.1 hs.2 hok⟩
  exact hboth.2.conserved hboth.1

/-- A listener accepts three connections: the first one is handed to the client, there is no memory
for the event of the second one, and the completion of the third one is on its way. -/
def threeConnections : List Action :=
  [.new .tcp, .tcp 0 (.listen true) (.ok 0), .tcp 0 (.accept none true true) (.ok 0), .runEnter,
    .processEndgame, .takeQueued, .dispatch (.ok 0), .tcp 0 (.accept none true true) (.ok 0),
    .callbackReturn, .nextRound, .processEndgame, .takeQueued,
    .dispatch { Sys.ok 0 with memAlloc := false }, .tcp 0 (.accept none true true) (.ok 0)]

theorem conserved_of_clientsBuilt_threeConnections :
    ∃ s, exec step (fun s a ↦ s.clientsBuilt a = true) init threeConnections = some s ∧
      s.accepted = [5, 9, 13] ∧ s.closed = [9] ∧ s.queue = [(0, .read)] ∧ s.Conserved := by
  have hrun : ((exec step (fun s a ↦ s.clientsBuilt a = true) init threeConnections).map fun s ↦
      (s.accepted, s.closed, s.queue)) = some ([5, 9, 13], [9], [(0, .read)]) := by decide +kernel
  obtain ⟨s, hs, hfields⟩ := Option.map_eq_some_iff.mp hrun
  simp only [Prod.mk.injEq] at hfields
  obtain ⟨haccepted, hclosed, hqueue⟩ := hfields
  exact ⟨s, hs, haccepted, hclosed, hqueue, conserved_of_clientsBuilt (Reachable.of_exec hs)⟩

/-- A connection is accepted, and `epoll_ctl` or `set_non_blocking` fails on its descriptor. -/
def clientFails (sys : Sys) : List Action :=
  [.new .tcp, .tcp 0 (.listen true) (.ok 0), .tcp 0 (.accept none true true) (.ok 0), .runEnter,
    .processEndgame, .takeQueued, .dispatch sys]

/-- The descriptor is closed with the half-built event, and then again: a second time it may belong
to someone else. -/
theorem clientFails_not_conserved :
    (∃ s, Reachable step anyStep init s ∧ s.accepted = [5] ∧ s.closed = [5, 5] ∧ ¬s.Conserved) ∧
      (exec step anyStep init (clientFails { Sys.ok 0 with epollCtl := some .again })).map closed =
        some [5, 5] ∧
      (exec step anyStep init (clientFails { Sys.ok 0 with nonBlocking := some .again })).map
        closed = some [5, 5] := by
  refine ⟨?_, by decide +kernel, by decide +kernel⟩
  have hrun : ((exec step anyStep init
      (clientFails { Sys.ok 0 with epollCtl := some .again })).map fun s ↦
      (s.accepted, s.closed)) = some ([5], [5, 5]) := by decide +kernel
  obtain ⟨s, hs, hfields⟩ := Option.map_eq_some_iff.mp hrun
  obtain ⟨haccepted, hclosed⟩ := Prod.mk.inj hfields
  refine ⟨s, Reachable.of_exec hs, haccepted, hclosed, fun hconserved ↦ ?_⟩
  have htwo : s.closed.count 5 = 2 := by rw [hclosed]; rfl
  rcases hconserved.descriptors 5 (by rw [haccepted]; exact List.mem_singleton_self 5) with
    ⟨-, -, h⟩ | ⟨-, -, h⟩ | ⟨-, -, h⟩ <;> omega

end IoLoop

end Nanoev
