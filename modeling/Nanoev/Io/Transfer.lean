import Nanoev.Io.Accepting
import Nanoev.Io.AsyncLoop
import Nanoev.Io.UdpLoop

/-!
# Descriptors that change hands

What each function does to the descriptors of the event it works on: what the event holds
afterwards, together with what the function has closed, is what it held before together with what
the function has opened or accepted. For the completion of an accept the event of the new connection
counts too, and the function does not keep the books when it has to give up a half-built event: the
descriptor is then closed by `tcp_free` and again by the error path of the completion.

The user data of a new connection is accounted for in the same way.
-/

namespace Nanoev

def fdOf (k : Option Socket) : List ℕ := (k.map Socket.fd).toList

/-- The descriptors of an event other than one that waits for the completion of an accept. -/
def Obj.own : Obj → List ℕ
  | .tcp t => fdOf t.sock
  | .udp u => fdOf u.sock
  | .async a => fdOf a.pipeR ++ a.pipeW.toList

def Obj.descriptors : Obj → List ℕ
  | .tcp t => fdOf t.sock ++ t.readSlot.held
  | o => o.own

section Effects

variable (effects : List IoEffect)

def openedBy : List ℕ := effects.filterMap IoEffect.opened?

def acceptedBy : List ℕ := effects.filterMap IoEffect.accepted?

def closedBy : List ℕ := effects.filterMap IoEffect.closed?

def allocatedBy : List ℕ := effects.filterMap IoEffect.allocated?

def freedBy : List ℕ := effects.filterMap IoEffect.freed?

theorem acceptedBy_subset : acceptedBy effects ⊆ openedBy effects := by
  intro fd hfd
  obtain ⟨e, he, heq⟩ := List.mem_filterMap.mp hfd
  refine List.mem_filterMap.mpr ⟨e, he, ?_⟩
  cases e <;> first | exact heq | cases heq

end Effects

/-- The effects neither open nor close, and have nothing to do with user data. -/
structure Neutral (effects : List IoEffect) : Prop where
  opened : openedBy effects = []
  closed : closedBy effects = []
  allocated : allocatedBy effects = []
  freed : freedBy effects = []

theorem neutral_nil : Neutral [] := ⟨rfl, rfl, rfl, rfl⟩

theorem neutral_assertEffect (a : Bool) : Neutral (assertEffect a) := by
  cases a <;> exact ⟨rfl, rfl, rfl, rfl⟩

theorem neutral_callUnless (deleted : Bool) (c : Call) : Neutral (Tcp.callUnless deleted c) := by
  cases deleted <;> exact ⟨rfl, rfl, rfl, rfl⟩

theorem neutral_submit (d : Dir) : Neutral [.submit d] := ⟨rfl, rfl, rfl, rfl⟩

theorem neutral_call (c : Call) : Neutral [.call c] := ⟨rfl, rfl, rfl, rfl⟩

/-- What a function that works on `o` makes of its descriptors and of user data; `client` is the
event of a new connection. -/
structure Transfer (fresh : Fresh) (o o' : Obj) (client : Option Tcp) (effects : List IoEffect) :
    Prop where
  descriptors : ∀ fd,
    o'.descriptors.count fd + (client.elim [] fun c ↦ (Obj.tcp c).descriptors).count fd +
        (closedBy effects).count fd =
      o.descriptors.count fd + (openedBy effects).count fd
  opened : (openedBy effects).Sublist [fresh.fd, fresh.fd + 1]
  own : ∀ fd ∈ o'.own, fd ∈ o.own ∨ fd ∈ openedBy effects ∧ fd ∉ acceptedBy effects
  handed : client ≠ none →
    ∃ call, IoEffect.call call ∈ effects ∧ call.newEvent = some fresh.event
  userdata : ∀ u, (allocatedBy effects).count u =
    (freedBy effects).count u + (client.bind Tcp.userdata).toList.count u
  allocated : (allocatedBy effects).Sublist [fresh.userdata]

/-- What a function that works on `o` always respects: what is held afterwards was held before or
has been opened, and what it has closed is not held. It may close a descriptor more than once. -/
structure Cedes (fresh : Fresh) (o o' : Obj) (client : Option Tcp) (effects : List IoEffect) :
    Prop where
  descriptors : ∀ fd,
    o'.descriptors.count fd + (client.elim [] fun c ↦ (Obj.tcp c).descriptors).count fd +
        min 1 ((closedBy effects).count fd) ≤
      o.descriptors.count fd + (openedBy effects).count fd
  opened : (openedBy effects).Sublist [fresh.fd, fresh.fd + 1]

namespace Transfer

variable {fresh : Fresh} {o o' : Obj} {effects rest : List IoEffect}

theorem cedes {client : Option Tcp} (h : Transfer fresh o o' client effects) :
    Cedes fresh o o' client effects where
  descriptors fd := by
    have := h.descriptors fd
    omega
  opened := h.opened

theorem of_neutral (h : Neutral effects)
    (hd : ∀ fd, o'.descriptors.count fd = o.descriptors.count fd)
    (hown : ∀ fd ∈ o'.own, fd ∈ o.own) : Transfer fresh o o' none effects where
  descriptors := fun fd ↦ by rw [h.opened, h.closed, hd fd]; rfl
  opened := by rw [h.opened]; exact List.nil_sublist _
  own := fun fd hfd ↦ .inl (hown fd hfd)
  handed := fun h ↦ absurd rfl h
  userdata := fun u ↦ by rw [h.allocated, h.freed]; rfl
  allocated := by rw [h.allocated]; exact List.nil_sublist _

theorem of_opened (h : Neutral rest) (hd : ∀ fd, o'.descriptors.count fd =
      o.descriptors.count fd + [fresh.fd].count fd)
    (hown : ∀ fd ∈ o'.own, fd ∈ o.own ∨ fd = fresh.fd) :
    Transfer fresh o o' none (.opened fresh.fd :: rest) where
  descriptors := by
    intro fd
    have hopened : openedBy (.opened fresh.fd :: rest) = [fresh.fd] := congrArg (_ :: ·) h.opened
    have hclosed : closedBy (.opened fresh.fd :: rest) = [] := h.closed
    rw [hopened, hclosed, hd fd]
    rfl
  opened := by
    have hopened : openedBy (.opened fresh.fd :: rest) = [fresh.fd] := congrArg (_ :: ·) h.opened
    rw [hopened]
    exact List.Sublist.cons_cons _ (List.nil_sublist _)
  own := by
    intro fd hfd
    rcases hown fd hfd with hfd | rfl
    · exact .inl hfd
    · refine .inr ⟨List.mem_cons_self, fun hacc ↦ ?_⟩
      have hopened := acceptedBy_subset rest hacc
      rw [h.opened] at hopened
      cases hopened
  handed := fun h ↦ absurd rfl h
  userdata := by
    intro u
    rw [show allocatedBy (.opened fresh.fd :: rest) = [] from h.allocated,
      show freedBy (.opened fresh.fd :: rest) = [] from h.freed]
    rfl
  allocated := by
    rw [show allocatedBy (.opened fresh.fd :: rest) = [] from h.allocated]
    exact List.nil_sublist _

theorem of_closing {k : Option Socket} (h : Neutral rest)
    (hd : ∀ fd, o'.descriptors.count fd + (fdOf k).count fd = o.descriptors.count fd)
    (hown : o'.own = []) : Transfer fresh o o' none (Tcp.closing k ++ rest) where
  descriptors := by
    intro fd
    have hclosed : closedBy (Tcp.closing k ++ rest) = fdOf k := by
      rw [closedBy, List.filterMap_append, show rest.filterMap _ = [] from h.closed]
      cases k <;> rfl
    have hopened : openedBy (Tcp.closing k ++ rest) = [] := by
      rw [openedBy, List.filterMap_append, show rest.filterMap _ = [] from h.opened]
      cases k <;> rfl
    rw [hclosed, hopened, ← hd fd]
    rfl
  opened := by
    rw [openedBy, List.filterMap_append, show rest.filterMap _ = [] from h.opened]
    cases k <;> exact List.nil_sublist _
  own := fun fd hfd ↦ by rw [hown] at hfd; cases hfd
  handed := fun h ↦ absurd rfl h
  userdata := by
    intro u
    rw [allocatedBy, List.filterMap_append, show rest.filterMap _ = [] from h.allocated, freedBy,
      List.filterMap_append, show rest.filterMap _ = [] from h.freed]
    cases k <;> rfl
  allocated := by
    rw [allocatedBy, List.filterMap_append, show rest.filterMap _ = [] from h.allocated]
    cases k <;> exact List.nil_sublist _

end Transfer

/-! ## TCP events

A listener may hold two descriptors, its socket and the one in `socket_accept`. What it holds in
`socket_accept` is taken by the completion of the accept: handed on to the new event, or closed. -/

namespace Tcp

variable {t t' : Tcp} {sys : Sys} {fresh : Fresh} {effects : List IoEffect}

theorem fdOf_modify {m m' events : Mask} {k k' : Option Socket} {err : Option Errno}
    (h : epollPollerModify m k events sys = ⟨err, m', k'⟩) : fdOf k' = fdOf k := by
  rw [fdOf, epollPollerModify_fd h, fdOf]

theorem Noted.fdOf_eq {d : Dir} {m : Mask} {k : Option Socket} {er : Bool}
    (h : Noted t d sys m k er) : fdOf k = fdOf t.sock := by
  obtain ⟨events, err, -, hreg⟩ := h.reg
  exact fdOf_modify hreg

/-- The socket is the same, and so is what waits for the completion of an accept. -/
theorem transfer_of_eq (h : Neutral effects) (hsock : fdOf t'.sock = fdOf t.sock)
    (hslot : t'.readSlot.held = t.readSlot.held) :
    Transfer fresh (.tcp t) (.tcp t') none effects := by
  refine .of_neutral h (fun fd ↦ ?_) fun fd hfd ↦ ?_
  · rw [Obj.descriptors, Obj.descriptors, hsock, hslot]
  · rw [Obj.own, ← hsock]
    exact hfd

theorem transfer_of_opened (hrest : Neutral effects) (hsock : t.sock = none)
    (hsock' : fdOf t'.sock = [fresh.fd]) (hslot : t'.readSlot = t.readSlot) :
    Transfer fresh (.tcp t) (.tcp t') none (.opened fresh.fd :: effects) := by
  refine .of_opened hrest (fun fd ↦ ?_) fun fd hfd ↦ .inr ?_
  · have hnone : (fdOf none).count fd = 0 := rfl
    rw [Obj.descriptors, Obj.descriptors, hsock', hsock, hslot, List.count_append,
      List.count_append]
    omega
  · rw [Obj.own, hsock'] at hfd
    exact List.mem_singleton.mp hfd

/-- A call of the client. The slot is only written by a call that finds no descriptor in it. -/
theorem CallOutcome.transfer {c : TcpCall} {op : ℕ} {ret : RetCode}
    (h : CallOutcome t op sys fresh c t' effects ret)
    (hslot : t.connected = true ∨ t.reading = false → t.readSlot.held = []) :
    Transfer fresh (.tcp t) (.tcp t') none effects := by
  have hopened : ∀ {m m' events k err},
      epollPollerModify m (some ⟨fresh.fd, .empty⟩) events sys = ⟨err, m', k⟩ →
        fdOf k = [fresh.fd] := fun hreg ↦ fdOf_modify hreg
  cases h with
  | refused | systemFailed | noSocket => exact transfer_of_eq neutral_nil rfl rfl
  | openFailed hc hsock hreg hτ | connectDeferred hsock hreg hτ =>
    exact transfer_of_opened (neutral_assertEffect _) hsock (hopened hreg) rfl
  | connectQueued hsock => exact transfer_of_opened (neutral_submit _) hsock rfl rfl
  | listenDone hsock hreg => exact transfer_of_opened neutral_nil hsock (hopened hreg) rfl
  | acceptFailed hlistening herror hreading hτ heffects =>
    rcases heffects with rfl | rfl
    · exact transfer_of_eq neutral_nil rfl (hslot (.inr hreading)).symm
    · -- the descriptor was closed at once
      refine ⟨fun fd ↦ ?_, .cons_cons _ (List.nil_sublist _), fun _ ↦ .inl, fun h ↦ absurd rfl h,
        fun _ ↦ rfl, List.nil_sublist _⟩
      rw [Obj.descriptors, Obj.descriptors, hslot (.inr hreading)]
      rfl
  | acceptQueued hlistening hsock herror hreading =>
    refine ⟨fun fd ↦ ?_, .cons_cons _ (List.nil_sublist _), fun _ ↦ .inl, fun h ↦ absurd rfl h,
      fun _ ↦ rfl, List.nil_sublist _⟩
    rw [Obj.descriptors, Obj.descriptors, hslot (.inr hreading), List.append_nil]
    exact List.count_append
  | acceptDeferred hlistening hsock herror hreading hτ =>
    exact transfer_of_eq neutral_nil rfl (hslot (.inr hreading)).symm
  | writeFailed hconnected herror hwriting hreg
  | writeDeferred hconnected hsock herror hwriting hreg =>
    exact transfer_of_eq (neutral_assertEffect _) (fdOf_modify hreg) rfl
  | writeQueued => exact transfer_of_eq (neutral_submit _) rfl rfl
  | readFailed hconnected | readDeferred hconnected =>
    exact transfer_of_eq neutral_nil rfl (hslot (.inl hconnected)).symm

theorem TimeoutOutcome.transfer {d : Dir} (h : TimeoutOutcome t d sys t' effects) :
    Transfer fresh (.tcp t) (.tcp t') none effects := by
  have hclosed : ∀ {k : Option Socket}, fdOf k = fdOf t.sock → ∀ fd,
      (fdOf none ++ t.readSlot.held).count fd + (fdOf k).count fd =
        (fdOf t.sock ++ t.readSlot.held).count fd := fun hk fd ↦ by
    rw [hk, List.count_append, List.count_append, Nat.add_comm, ← Nat.add_assoc]
    rfl
  cases h with
  | readIgnored | writeIgnored => exact transfer_of_eq neutral_nil rfl rfl
  | acceptExpired | readExpired => exact .of_closing (neutral_callUnless _ _) (hclosed rfl) rfl
  | connectExpired _ _ _ _ hreg | writeExpired _ _ _ _ hreg =>
    exact .of_closing (neutral_callUnless _ _) (hclosed (fdOf_modify hreg)) rfl

theorem OfferOutcome.transfer {d : Dir} {completed : Bool}
    (h : OfferOutcome t d sys fresh t' completed effects)
    (hslot : d = .read → t.readSlot.held = []) :
    Transfer fresh (.tcp t) (.tcp t') none effects := by
  have hclear : t.readSlot.clearSocket.held = [] := by cases t.readSlot <;> rfl
  cases h with
  | nothing | read | write | connect => exact transfer_of_eq neutral_nil rfl rfl
  | accepted hd =>
    refine ⟨fun fd ↦ ?_, .cons_cons _ (List.nil_sublist _), fun _ ↦ .inl, fun h ↦ absurd rfl h,
      fun _ ↦ rfl, List.nil_sublist _⟩
    rw [Obj.descriptors, Obj.descriptors, hslot hd, List.append_nil]
    exact List.count_append
  | acceptFailed hd hreading hconnected heffects =>
    rcases heffects with rfl | rfl
    · exact transfer_of_eq neutral_nil rfl (hclear.trans (hslot hd).symm)
    · refine ⟨fun fd ↦ ?_, .cons_cons _ (List.nil_sublist _), fun _ ↦ .inl, fun h ↦ absurd rfl h,
        fun _ ↦ rfl, List.nil_sublist _⟩
      rw [Obj.descriptors, Obj.descriptors, hslot hd, hclear]
      rfl

/-- The system calls that `tcp_alloc_client` makes on the new descriptor succeed. -/
def clientBuilt (sys : Sys) : Bool :=
  sys.nonBlocking.isNone && sys.closeOnExec.isNone && sys.epollCtl.isNone

/-- `tcp_alloc_client` is reached, and gets the memory for the new event. -/
def buildsClient (t : Tcp) (d : Dir) (sys : Sys) : Bool :=
  !t.connected && t.listening && t.reading && !t.deleted && decide ((t.ctx d).status = 0) &&
    (!t.readSlot.allocUserdata || sys.userdata) && sys.memAlloc

section Accept

variable {alloc : Bool} {slot : Option ℕ} {status : ℤ} {op : ℕ} {client : Option Tcp}

theorem AcceptOutcome.opened_eq_nil
    (h : AcceptOutcome alloc slot status op sys fresh client effects) : openedBy effects = [] := by
  cases h <;> cases slot <;> cases alloc <;> rfl

theorem AcceptOutcome.closed_eq (h : AcceptOutcome alloc slot status op sys fresh client effects)
    (hbuilt : status = 0 → (alloc = true → sys.userdata = true) → sys.memAlloc = true →
      clientBuilt sys = true) :
    (client.elim [] fun c ↦ (Obj.tcp c).descriptors) ++ closedBy effects = slot.toList := by
  cases h with
  | rejected => cases slot <;> rfl
  | noMemory => cases slot <;> cases alloc <;> rfl
  | halfBuilt hstatus huser hmem hfailed =>
    have hok := hbuilt hstatus huser hmem
    simp only [clientBuilt, Bool.and_eq_true, Option.isNone_iff_eq_none] at hok
    obtain rfl : slot = none := by
      rcases hfailed with h | h | h | h
      · exact h
      · exact absurd hok.1.1 h
      · exact absurd hok.1.2 h
      · exact absurd hok.2 h
    cases alloc <;> rfl
  | accepted hslot =>
    rw [hslot]
    cases alloc <;> rfl

theorem AcceptOutcome.userdata_eq
    (h : AcceptOutcome alloc slot status op sys fresh client effects) :
    allocatedBy effects = freedBy effects ++ (client.bind Tcp.userdata).toList := by
  cases h <;> cases slot <;> cases alloc <;> rfl

theorem AcceptOutcome.allocated_sublist
    (h : AcceptOutcome alloc slot status op sys fresh client effects) :
    (allocatedBy effects).Sublist [fresh.userdata] := by
  cases h <;> cases slot <;> cases alloc <;>
    first | exact List.Sublist.refl _ | exact List.nil_sublist _

theorem AcceptOutcome.handed (h : AcceptOutcome alloc slot status op sys fresh client effects)
    (hc : client ≠ none) :
    ∃ call, IoEffect.call call ∈ effects ∧ call.newEvent = some fresh.event := by
  cases h with
  | rejected | noMemory | halfBuilt => exact absurd rfl hc
  | accepted => exact ⟨_, List.mem_append_right _ List.mem_cons_self, rfl⟩

/-- A half-built event closes the descriptor, and so does the error path: but nobody holds it
then. -/
theorem AcceptOutcome.closed_le (h : AcceptOutcome alloc slot status op sys fresh client effects)
    (fd : ℕ) :
    (client.elim [] fun c ↦ (Obj.tcp c).descriptors).count fd +
        min 1 ((closedBy effects).count fd) ≤
      slot.toList.count fd := by
  cases h with
  | rejected =>
    cases slot with
    | none => exact le_rfl
    | some k => exact (Nat.zero_add _).trans_le (min_le_right ..)
  | noMemory =>
    cases slot with
    | none => cases alloc <;> exact le_rfl
    | some k => cases alloc <;> exact (Nat.zero_add _).trans_le (min_le_right ..)
  | halfBuilt =>
    cases slot with
    | none => cases alloc <;> exact le_rfl
    | some k =>
      have htwo : ∀ fd, min 1 ([k, k].count fd) ≤ [k].count fd := by
        intro fd
        by_cases hk : k = fd
        · simp [hk]
        · simp [hk]
      cases alloc <;> exact (Nat.zero_add _).trans_le (htwo fd)
  | accepted hslot =>
    rw [hslot]
    cases alloc <;> exact le_rfl

theorem AcceptOutcome.cedes (h : AcceptOutcome alloc slot status op sys fresh client effects)
    (hslot : t.readSlot.held = slot.toList) (hsock : fdOf t'.sock = fdOf t.sock)
    (hslot' : t'.readSlot.held = []) : Cedes fresh (.tcp t) (.tcp t') client effects where
  descriptors := by
    intro fd
    have hle := h.closed_le fd
    rw [h.opened_eq_nil, Obj.descriptors, Obj.descriptors, hsock, hslot, hslot', List.append_nil,
      List.count_append, List.count_nil]
    omega
  opened := by
    rw [h.opened_eq_nil]
    exact List.nil_sublist _

theorem AcceptOutcome.transfer (h : AcceptOutcome alloc slot status op sys fresh client effects)
    (hbuilt : status = 0 → (alloc = true → sys.userdata = true) → sys.memAlloc = true →
      clientBuilt sys = true)
    (hslot : t.readSlot.held = slot.toList) (hsock : fdOf t'.sock = fdOf t.sock)
    (hslot' : t'.readSlot.held = []) : Transfer fresh (.tcp t) (.tcp t') client effects where
  descriptors := by
    intro fd
    rw [h.opened_eq_nil, Nat.add_assoc, ← List.count_append, h.closed_eq hbuilt, Obj.descriptors,
      Obj.descriptors, hsock, hslot, hslot', List.append_nil, List.count_append]
    rfl
  opened := by
    rw [h.opened_eq_nil]
    exact List.nil_sublist _
  own := by
    intro fd hfd
    rw [Obj.own, hsock] at hfd
    exact .inl hfd
  handed := h.handed
  userdata := fun u ↦ by rw [h.userdata_eq, List.count_append]
  allocated := h.allocated_sublist

end Accept

/-- A completion is delivered, and the books are kept unless the event of a new connection has to be
given up half built. -/
theorem DispatchOutcome.transfer_or {d : Dir} {client : Option Tcp}
    (h : DispatchOutcome t d sys fresh t' client effects)
    (hslot : t.connected = false → t.listening = true → ∃ alloc fd, t.readSlot = .accept alloc fd)
    (hlost : t.reading = false ∨ t.onAccept = none → t.readSlot.held = []) :
    Transfer fresh (.tcp t) (.tcp t') client effects ∨
      (t.buildsClient d sys = true ∧ clientBuilt sys = false ∧
        Cedes fresh (.tcp t) (.tcp t') client effects) := by
  have hclose : ∀ {slot : Option ℕ}, openedBy (closeAccepted slot) = [] ∧
      closedBy (closeAccepted slot) = slot.toList ∧ allocatedBy (closeAccepted slot) = [] ∧
      freedBy (closeAccepted slot) = [] := by
    intro slot
    cases slot <;> exact ⟨rfl, rfl, rfl, rfl⟩
  cases h with
  | readDone hn | writeDone hn | connectFailed hn =>
    exact .inl <| transfer_of_eq (neutral_callUnless _ _) hn.fdOf_eq rfl
  | readStale hn | writeStale hn | connectStale hn =>
    exact .inl <| transfer_of_eq neutral_nil hn.fdOf_eq rfl
  | connectDone hn _ _ _ _ _ _ hreg =>
    exact .inl (transfer_of_eq (neutral_call _) ((fdOf_modify hreg).trans hn.fdOf_eq) rfl)
  | acceptDone hn hconnected hlistening hreading hop hdeleted =>
    obtain ⟨alloc, fd, hfd⟩ := hslot hconnected hlistening
    have hheld : t.readSlot.held = t.readSlot.socketAccept.toList := by
      rw [hfd]
      cases fd <;> rfl
    by_cases hbuilt : t.buildsClient d sys = true → clientBuilt sys = true
    · refine .inl ((acceptClient_outcome ..).transfer (fun hstatus huser hmem ↦ hbuilt ?_) hheld
        hn.fdOf_eq rfl)
      simp only [buildsClient, hconnected, hlistening, hreading, hdeleted, hstatus, hmem,
        Bool.not_false, Bool.and_true, Bool.true_and, decide_true, Bool.or_eq_true,
        Bool.not_eq_true']
      exact (Bool.eq_false_or_eq_true _).symm.imp_right huser
    · obtain ⟨hbuilds, hfails⟩ := Classical.not_imp.mp hbuilt
      exact .inr ⟨hbuilds, Bool.eq_false_iff.mpr hfails,
        (acceptClient_outcome ..).cedes hheld hn.fdOf_eq rfl⟩
  | acceptDropped hn hconnected hlistening =>
    -- the event has been freed, and the connection is closed with the completion
    obtain ⟨alloc, fd, hfd⟩ := hslot hconnected hlistening
    obtain ⟨h₁, h₂, h₃, h₄⟩ := @hclose t.readSlot.socketAccept
    refine .inl ⟨fun x ↦ ?_, by rw [h₁]; exact List.nil_sublist _, fun x hx ↦ .inl ?_,
      fun h ↦ absurd rfl h, fun x ↦ by rw [h₃, h₄]; rfl, by rw [h₃]; exact List.nil_sublist _⟩
    · have hheld : t.readSlot.held = t.readSlot.socketAccept.toList := by
        rw [hfd]
        cases fd <;> rfl
      rw [h₁, h₂, Obj.descriptors, Obj.descriptors, hn.fdOf_eq, hheld, List.count_append,
        List.count_append]
      rfl
    · rw [Obj.own, ← hn.fdOf_eq]
      exact hx
  | acceptStale hn hconnected hlistening hlost' =>
    -- the callback is gone, and then there is no connection in the slot
    obtain ⟨alloc, fd, hfd⟩ := hslot hconnected hlistening
    have hnone : t.readSlot.socketAccept = none := by
      have hheld := hlost hlost'
      rw [hfd] at hheld ⊢
      cases fd with
      | none => rfl
      | some fd => cases hheld
    rw [hnone]
    exact .inl (transfer_of_eq neutral_nil hn.fdOf_eq rfl)

/-- A completion is delivered, and the event of a new connection is not given up half built. -/
theorem DispatchOutcome.transfer {d : Dir} {client : Option Tcp}
    (h : DispatchOutcome t d sys fresh t' client effects)
    (hslot : t.connected = false → t.listening = true → ∃ alloc fd, t.readSlot = .accept alloc fd)
    (hlost : t.reading = false ∨ t.onAccept = none → t.readSlot.held = [])
    (hbuilt : t.buildsClient d sys = true → clientBuilt sys = true) :
    Transfer fresh (.tcp t) (.tcp t') client effects := by
  rcases h.transfer_or hslot hlost with htr | ⟨hbuilds, hfails, -⟩
  · exact htr
  · rw [hbuilt hbuilds] at hfails
    cases hfails

theorem DispatchOutcome.cedes {d : Dir} {client : Option Tcp}
    (h : DispatchOutcome t d sys fresh t' client effects)
    (hslot : t.connected = false → t.listening = true → ∃ alloc fd, t.readSlot = .accept alloc fd)
    (hlost : t.reading = false ∨ t.onAccept = none → t.readSlot.held = []) :
    Cedes fresh (.tcp t) (.tcp t') client effects := by
  rcases h.transfer_or hslot hlost with htr | ⟨-, -, hcedes⟩
  · exact htr.cedes
  · exact hcedes

end Tcp

/-! ## UDP events -/

namespace Udp

variable {u u' : Udp} {sys : Sys} {fresh : Fresh} {effects rest : List IoEffect}

theorem neutral_callAsserted (holds deleted : Bool) (callback : Option ℕ) (status : ℤ)
    (buf bytes : ℕ) :
    Neutral (assertEffect holds ++ callAsserted callback deleted status buf bytes) := by
  cases holds <;> cases deleted <;> cases callback <;> exact ⟨rfl, rfl, rfl, rfl⟩

theorem transfer_of_eq (h : Neutral effects) (hsock : fdOf u'.sock = fdOf u.sock) :
    Transfer fresh (.udp u) (.udp u') none effects := by
  refine .of_neutral h (fun fd ↦ ?_) fun fd hfd ↦ ?_
  · show (fdOf u'.sock).count fd = (fdOf u.sock).count fd
    rw [hsock]
  · rw [Obj.own, ← hsock]
    exact hfd

theorem transfer_of_opening {m : Mask} {k : Option Socket}
    (h : Opening fresh u.reactorEvents u.sock m k effects) (hrest : Neutral rest)
    (hsock : fdOf u'.sock = fdOf k) : Transfer fresh (.udp u) (.udp u') none (effects ++ rest) := by
  cases h with
  | same => exact transfer_of_eq hrest hsock
  | opened hnone hev hreg =>
    have hk : fdOf u'.sock = [fresh.fd] := hsock.trans (Tcp.fdOf_modify hreg)
    refine .of_opened hrest (fun fd ↦ ?_) fun fd hfd ↦ .inr ?_
    · show (fdOf u'.sock).count fd = (fdOf u.sock).count fd + _
      rw [hk, hnone, fdOf, Option.map_none, Option.toList_none, List.count_nil, Nat.zero_add]
    · rw [Obj.own, hk] at hfd
      exact List.mem_singleton.mp hfd

theorem CallOutcome.transfer {c : UdpCall} {op : ℕ} {ret : RetCode}
    (h : CallOutcome u op fresh c u' effects ret) :
    Transfer fresh (.udp u) (.udp u') none effects := by
  cases h with
  | quiet hopen => exact transfer_of_opening hopen (neutral_assertEffect _) rfl
  | readStarted => exact transfer_of_eq neutral_nil rfl
  | writeQueued hopen => exact transfer_of_opening hopen (neutral_submit _) rfl
  | writeDeferred hopen hwriting hreg =>
    exact transfer_of_opening hopen (neutral_assertEffect _) (Tcp.fdOf_modify hreg)

theorem DispatchOutcome.transfer {d : Dir} (h : DispatchOutcome u sys d u' effects) :
    Transfer fresh (.udp u) (.udp u') none effects := by
  cases h with
  | read => exact transfer_of_eq (neutral_callAsserted ..) rfl
  | write hreg => exact transfer_of_eq (neutral_callAsserted ..) (Tcp.fdOf_modify hreg)

end Udp

/-! ## Async events -/

namespace Async

variable {a : Async} {sys : Sys} {fresh : Fresh} {op : ℕ}

def Unstarted (a : Async) : Prop := a.started = false → a.pipeR = none ∧ a.pipeW = none

theorem Unstarted.start (h : a.Unstarted) : (a.nanoevAsyncStart op sys fresh).1.Unstarted := by
  unfold nanoevAsyncStart
  split
  · exact h
  · dsimp only
    split
    · exact h
    · split
      · exact h
      · exact h
      · split
        · exact h
        · nofun

theorem Unstarted.send (h : a.Unstarted) (written : Bool) :
    (a.nanoevAsyncSend written).1.Unstarted := by
  unfold nanoevAsyncSend
  split_ifs <;> exact h

theorem Unstarted.reactorCb (h : a.Unstarted) (sys : Sys) : (a.reactorCb sys).Unstarted := by
  unfold Async.reactorCb
  split <;> exact h

theorem start_transfer (h : a.Unstarted) :
    Transfer fresh (.async a) (.async (a.nanoevAsyncStart op sys fresh).1) none
      (a.nanoevAsyncStart op sys fresh).2.1 := by
  have hsame : Transfer fresh (.async a) (.async a) none [] :=
    .of_neutral neutral_nil (fun _ ↦ rfl) fun _ ↦ id
  have hboth : Transfer fresh (.async a) (.async a) none
      [.opened fresh.fd, .opened (fresh.fd + 1), .close fresh.fd, .close (fresh.fd + 1)] :=
    ⟨fun fd ↦ rfl, List.Sublist.refl _, fun _ ↦ .inl, fun h ↦ absurd rfl h, fun _ ↦ rfl,
      List.nil_sublist _⟩
  unfold nanoevAsyncStart
  split
  · exact hsame
  · next hstarted =>
    obtain ⟨hr, hw⟩ := h (Bool.eq_false_of_not_eq_true hstarted)
    dsimp only
    split
    · exact hsame
    · split
      · exact hboth
      · exact hboth
      · rcases hreg : epollPollerModify a.reactorEvents (some ⟨fresh.fd, .empty⟩) .evRead sys with
          ⟨err, m, k⟩
        have hk : fdOf k = [fresh.fd] := Tcp.fdOf_modify hreg
        cases err with
        | some e => exact hboth
        | none =>
          obtain ⟨h₁, h₂, h₃, h₄⟩ := neutral_assertEffect !a.asyncSent
          refine ⟨fun fd ↦ ?_, ?_, fun fd hfd ↦ .inr ⟨?_, fun hacc ↦ ?_⟩, fun h ↦ absurd rfl h,
            fun u ↦ ?_, ?_⟩
          · show (fdOf k ++ [fresh.fd + 1]).count fd + 0 + (closedBy (assertEffect _)).count fd =
              (fdOf a.pipeR ++ a.pipeW.toList).count fd +
                (fresh.fd :: (fresh.fd + 1) :: openedBy (assertEffect _)).count fd
            rw [hk, hr, hw, h₁, h₂, List.count_nil, Nat.add_zero]
            exact (Nat.zero_add _).symm
          · show (fresh.fd :: (fresh.fd + 1) :: openedBy (assertEffect _)).Sublist _
            rw [h₁]
          · show fd ∈ fresh.fd :: (fresh.fd + 1) :: openedBy (assertEffect _)
            rw [h₁]
            rwa [Obj.own, hk] at hfd
          · have hopened := acceptedBy_subset (assertEffect !a.asyncSent) hacc
            rw [h₁] at hopened
            cases hopened
          · show (allocatedBy (assertEffect _)).count u = (freedBy (assertEffect _)).count u + 0
            rw [h₃, h₄, Nat.add_zero]
          · show (allocatedBy (assertEffect _)).Sublist _
            rw [h₃]
            exact List.nil_sublist _

theorem dispatch_transfer :
    Transfer fresh (.async a) (.async a.asyncProactorCallback.1) none
      a.asyncProactorCallback.2 := by
  refine .of_neutral ?_ (fun _ ↦ rfl) fun _ ↦ id
  unfold asyncProactorCallback
  dsimp only
  split
  · cases a.onAsync <;> exact ⟨rfl, rfl, rfl, rfl⟩
  · exact neutral_nil

theorem send_own (written : Bool) : (Obj.async (a.nanoevAsyncSend written).1).own =
    (Obj.async a).own := by
  unfold nanoevAsyncSend
  split_ifs <;> rfl

theorem reactorCb_own (sys : Sys) : (Obj.async (a.reactorCb sys)).own = (Obj.async a).own := by
  unfold reactorCb
  split <;> rfl

end Async

theorem AsyncStep.unstarted {v v' : AsyncView} {act : AsyncAct} (hstep : AsyncStep v act v')
    (h : v.a.Unstarted) : v'.a.Unstarted := by
  cases hstep with
  | start => exact h.start
  | send => exact h.send _
  | offer => exact h.reactorCb _
  | _ => exact h

/-! ## Freeing -/

namespace Obj

/-- The memory of an event that is released without waiting holds no accepted descriptor. -/
def Emptied (o : Obj) : Prop := ∀ t, o = .tcp t → t.reading = false → t.readSlot.held = []

theorem withNext_own (o : Obj) (n : Option ℕ) : (o.withNext n).own = o.own := by
  cases o <;> rfl

theorem withNext_descriptors (o : Obj) (n : Option ℕ) :
    (o.withNext n).descriptors = o.descriptors := by
  cases o <;> rfl

theorem freeCloses_eq_own (o : Obj) (hdefers : o.freeDefers = false) : o.freeCloses = o.own := by
  cases o with
  | tcp t =>
    rw [freeCloses, Tcp.tcpFree, Tcp.closeTcpSocket_eq, own]
    cases t.sock <;> rfl
  | udp u =>
    rw [freeCloses, Udp.udpFree_eq, own]
    cases u.sock <;> rfl
  | async a =>
    have hnot : a.asyncFreeDefers = false := hdefers
    rw [freeCloses, hnot]
    show a.closePipes.filterMap IoEffect.closed? = fdOf a.pipeR ++ a.pipeW.toList
    unfold Async.closePipes
    cases a.pipeR <;> cases a.pipeW <;> rfl

theorem freeCloses_eq (o : Obj) (ho : o.Emptied) (hdefers : o.freeDefers = false) :
    o.freeCloses = o.descriptors := by
  rw [o.freeCloses_eq_own hdefers]
  cases o with
  | tcp t =>
    have hheld := ho t rfl (Bool.or_eq_false_iff.mp hdefers).1
    rw [descriptors, hheld, List.append_nil, own]
  | udp u | async a => rfl

theorem freed_descriptors (o : Obj) (p : Proactor) (hdefers : o.freeDefers = true) (fd : ℕ) :
    (o.freed.setProactor p).descriptors.count fd + o.freeCloses.count fd =
      o.descriptors.count fd := by
  cases o with
  | tcp t =>
    rw [freeCloses, freed, Tcp.tcpFree, Tcp.closeTcpSocket_eq]
    show t.readSlot.held.count fd + _ = (fdOf t.sock ++ t.readSlot.held).count fd
    rw [List.count_append, Nat.add_comm]
    cases t.sock <;> rfl
  | udp u =>
    rw [freeCloses, freed, Udp.udpFree_eq]
    show 0 + _ = (fdOf u.sock).count fd
    rw [Nat.zero_add]
    cases u.sock <;> rfl
  | async a =>
    have hnot : a.asyncFreeDefers = true := hdefers
    rw [freeCloses, hnot]
    rfl

theorem freed_own (o : Obj) (p : Proactor) {fd : ℕ} (h : fd ∈ (o.freed.setProactor p).own) :
    fd ∈ o.own := by
  cases o with
  | tcp t =>
    rw [freed, Tcp.tcpFree, Tcp.closeTcpSocket_eq] at h
    cases h
  | udp u =>
    rw [freed, Udp.udpFree_eq] at h
    cases h
  | async a => exact h

end Obj

end Nanoev
