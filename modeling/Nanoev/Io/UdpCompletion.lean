import Nanoev.Io.UdpLoop
import Nanoev.Io.Progress
import Nanoev.Io.Offers

/-!
# The completions of UDP events

The socket of a UDP event is registered for reading as soon as it is open, and `reactor_cb` receives
without a look at the flags. What it does is right when a read is pending: the buffer is the one of
that read, and the completion finds the flag and the callback. Nothing makes sure that a read is
pending when a datagram or an error arrives.

For writing the event itself takes care. It is registered for writing only while a write is pending,
as long as `epoll_ctl` takes the interest back when the write is completed.
-/

namespace Nanoev

open Transition

/-! ## Registrations -/

section Registration

variable {m m' events : Mask} {k k' : Option Socket} {sys : Sys} {err : Option Errno}
  {fresh : Fresh} {effects : List IoEffect}

theorem Opening.mirrored (h : Opening fresh m k m' k' effects) (hm : Mirrored m k)
    (hempty : k = none → m = .empty) : Mirrored m' k' := by
  cases h with
  | same => exact hm
  | opened hnone hev hreg =>
    rw [hempty hnone] at hreg
    exact (mirrored_new fresh.fd).of_modify hreg

theorem Opening.write (h : Opening fresh m k m' k' effects) (hw : m'.write = true) :
    m.write = true := by
  cases h with
  | same => exact hw
  | opened hnone hev hreg =>
    obtain ⟨rfl, -⟩ | ⟨-, rfl, -⟩ := epollPollerModify_cases hreg
    · exact hw
    · rcases hev with rfl | rfl
      · exact hw
      · cases hw

theorem Opening.eq_of_none (h : Opening fresh m k m' k' effects) (hk' : k' = none) :
    k = none ∧ m' = m := by
  cases h with
  | same => exact ⟨hk', rfl⟩
  | opened hnone hev hreg => cases (epollPollerModify_eq_none_iff hreg).mp hk'

theorem Opening.submits_eq (h : Opening fresh m k m' k' effects) (rest : List IoEffect)
    (d : Dir) : submits (effects ++ rest) d = submits rest d := by
  cases h <;> rfl

end Registration

namespace Udp

variable {u u' : Udp} {m : Mask} {k : Option Socket} {fresh : Fresh} {effects : List IoEffect}

/-- The registration of a UDP event: the interest that it has cached is the kernel's, there is none
before the socket is opened, and it is registered for writing only while a write is pending. -/
structure Registered (u : Udp) : Prop where
  mirror : Mirrored u.reactorEvents u.sock
  unopened : u.deleted = false → u.sock = none → u.reactorEvents = .empty
  closed : u.deleted = true → u.sock = none
  writes : u.sock ≠ none → u.reactorEvents.write = true → u.writing = true

theorem udpNew_registered : udpNew.Registered :=
  ⟨nofun, fun _ _ ↦ rfl, nofun, fun h ↦ absurd rfl h⟩

namespace Registered

theorem opening (h : u.Registered) (hlive : u.deleted = false)
    (ho : Opening fresh u.reactorEvents u.sock u'.reactorEvents u'.sock effects)
    (hdel : u'.deleted = u.deleted) (hw : u.writing = true → u'.writing = true) :
    u'.Registered where
  mirror := ho.mirrored h.mirror (h.unopened hlive)
  unopened := by
    intro _ hk
    obtain ⟨hnone, hm⟩ := ho.eq_of_none hk
    exact hm.trans (h.unopened hlive hnone)
  closed := fun hd ↦ absurd (hlive.symm.trans (hdel.symm.trans hd)) (by decide)
  writes := by
    intro _ hwrite
    have hold := ho.write hwrite
    refine hw (h.writes (fun hnone ↦ ?_) hold)
    rw [h.unopened hlive hnone] at hold
    cases hold

theorem modify {events : Mask} {sys : Sys} {err : Option Errno} (h : u.Registered)
    (hwriting : u.writing = true) (hlive : u.deleted = false)
    (hreg : epollPollerModify u.reactorEvents u.sock events sys = ⟨err, m, k⟩) :
    Registered { u with reactorEvents := m, sock := k } where
  mirror := h.mirror.of_modify hreg
  unopened := by
    intro _ hk
    have hnone := (epollPollerModify_eq_none_iff hreg).mp hk
    rw [hnone] at hreg
    exact (epollPollerModify_none hreg).trans (h.unopened hlive hnone)
  closed := fun hd ↦ absurd (hlive.symm.trans hd) (by decide)
  writes := fun _ _ ↦ hwriting

theorem drop {sys : Sys} {err : Option Errno} (h : u.Registered)
    (hctl : u.deleted = false → u.reactorEvents.write = true → sys.epollCtl = none)
    (hreg : epollPollerModify u.reactorEvents u.sock u.reactorEvents.andNotWrite sys =
      ⟨err, m, k⟩)
    (hm : u'.reactorEvents = m) (hk : u'.sock = k) (hdel : u'.deleted = u.deleted) :
    u'.Registered where
  mirror := by
    rw [hm, hk]
    exact h.mirror.of_modify hreg
  unopened := by
    intro hlive hnone
    rw [hk, epollPollerModify_eq_none_iff hreg] at hnone
    rw [hnone] at hreg
    rw [hm, epollPollerModify_none hreg]
    exact h.unopened (hdel.symm.trans hlive) hnone
  closed := by
    intro hd
    rw [hk, epollPollerModify_eq_none_iff hreg]
    exact h.closed (hdel.symm.trans hd)
  writes := by
    intro hopen hwrite
    rw [hk] at hopen
    have hlive : u.deleted = false := by
      refine Bool.eq_false_of_not_eq_true fun hd ↦ hopen ?_
      rw [epollPollerModify_eq_none_iff hreg]
      exact h.closed hd
    by_cases hinterest : u.reactorEvents.write = true
    swap
    · have hsame : u.reactorEvents.andNotWrite = u.reactorEvents := by
        rw [Mask.andNotWrite, ← Bool.eq_false_of_not_eq_true hinterest]
      rw [hsame, epollPollerModify_self] at hreg
      rw [hm, ← (Registration.mk.inj hreg).2.1] at hwrite
      exact absurd hwrite hinterest
    -- both sides now hold what was asked for, which has no interest in writing
    obtain ⟨hmirror, hevents⟩ := h.mirror.modify (hctl hlive hinterest) hreg
    obtain ⟨x, rfl⟩ := Option.ne_none_iff_exists'.mp hopen
    rw [hm, ← hmirror x rfl, hevents x rfl] at hwrite
    cases hwrite

end Registered

def on (u : Udp) : Dir → Option ℕ
  | .read => u.onRead
  | .write => u.onWrite

end Udp

/-! ## One event -/

namespace UdpView

variable {v : UdpView} {u' : Udp} {d : Dir}

/-- What a direction of a UDP event has: its callback is stored while its flag is set, and there is
at most one completion on the way, none without the flag. -/
structure Side (v : UdpView) (d : Dir) : Prop where
  on : (v.u.on d).isSome = v.u.flag d
  count : v.queued d + v.batched d ≤ (v.u.flag d).toNat

/-- The completions of a UDP event match what is pending on it. -/
structure Matched (v : UdpView) : Prop where
  registered : v.u.Registered
  on : ∀ d, (v.u.on d).isSome = v.u.flag d
  /-- There is at most one completion in each direction, and none without the flag. -/
  count : ∀ d, v.queued d + v.batched d ≤ (v.u.flag d).toNat
  pending : v.u.reading = true → v.pending = some v.u.bufRead

theorem Side.flag_of_pos (h : v.Side d) (hpos : 0 < v.queued d + v.batched d) :
    v.u.flag d = true := by
  refine Bool.eq_true_of_not_eq_false fun hflag ↦ ?_
  have hcount := h.count
  rw [hflag, Bool.toNat_false] at hcount
  omega

theorem Matched.side (h : v.Matched) (d : Dir) : v.Side d := ⟨h.on d, h.count d⟩

theorem New.side (h : v.New) (d : Dir) : v.Side d := by
  cases h with
  | udpNew p => exact ⟨by cases d <;> rfl, Nat.zero_le _⟩

theorem New.registered (h : v.New) : v.u.Registered := by
  cases h with
  | udpNew p => exact Udp.udpNew_registered

theorem New.matched (h : v.New) : v.Matched := by
  refine ⟨h.registered, fun d ↦ (h.side d).on, fun d ↦ (h.side d).count, ?_⟩
  cases h with
  | udpNew p => exact nofun

end UdpView

/-- The condition on what is done to a UDP event: readiness is offered only in a direction in which
an operation is pending, and the interest in writing is taken back. -/
def UdpAct.matchable (v : UdpView) : UdpAct → Prop
  | .offer d => v.u.flag d = true
  | .dispatch .write sys => v.u.deleted = false → sys.epollCtl = none
  | _ => True

/-- The part of the condition that is about the interest in writing. -/
def UdpAct.takesBack (v : UdpView) : UdpAct → Prop
  | .dispatch .write sys =>
    v.u.deleted = false → v.u.reactorEvents.write = true → sys.epollCtl = none
  | _ => True

theorem UdpAct.matchable.takesBack {v : UdpView} {a : UdpAct} (h : a.matchable v) :
    a.takesBack v := by
  cases a with
  | dispatch d sys =>
    cases d with
    | read => trivial
    | write => exact fun hlive _ ↦ h hlive
  | _ => trivial

namespace UdpView.Side

variable {v : UdpView} {u' : Udp} {d : Dir}

/-- A write is started: its flag and its callback are set together, and the other direction is not
affected. -/
theorem startWrite {q : Dir → ℕ} {op : ℕ} {p : Option IoBuf} (h : v.Side d)
    (hidle : v.u.writing = false) (hread : u'.onRead = v.u.onRead ∧ u'.reading = v.u.reading)
    (hwrite : u'.onWrite = some op ∧ u'.writing = true)
    (hq : q .read = v.queued .read ∧ q .write ≤ v.queued .write + 1) :
    Side ⟨u', q, v.batched, p⟩ d := by
  have hcount := h.count
  cases d with
  | read =>
    refine ⟨?_, ?_⟩
    · rw [Udp.on, Proactor.flag, hread.1, hread.2]
      exact h.on
    · rw [Proactor.flag] at hcount
      rw [Proactor.flag, hread.2]
      dsimp only
      rw [hq.1]
      exact hcount
  | write =>
    refine ⟨?_, ?_⟩
    · rw [Udp.on, Proactor.flag, hwrite.1, hwrite.2]
      rfl
    · rw [Proactor.flag, hidle, Bool.toNat_false] at hcount
      rw [Proactor.flag, hwrite.2, Bool.toNat_true]
      dsimp only
      omega

theorem call {c : UdpCall} {op : ℕ} {fresh : Fresh} {effects : List IoEffect} {ret : RetCode}
    {p : Option IoBuf} (h : v.Side d) (hc : Udp.CallOutcome v.u op fresh c u' effects ret) :
    Side ⟨u', fun d ↦ v.queued d + submits effects d, v.batched, p⟩ d := by
  cases hc with
  | @quiet _ k m f cn er ec bw cw ta wc effects a _ hopen hret =>
    have hnone : ∀ e, submits (effects ++ assertEffect a) e = 0 := fun e ↦ by
      rw [hopen.submits_eq, submits_assertEffect]
    simp only [hnone, Nat.add_zero]
    cases d with
    | read | write => exact ⟨h.on, h.count⟩
  | readStarted hreading =>
    cases d with
    | read =>
      have hcount := h.count
      rw [Proactor.flag, hreading, Bool.toNat_false] at hcount
      exact ⟨rfl, hcount.trans (Nat.zero_le _)⟩
    | write => exact ⟨h.on, h.count⟩
  | writeQueued hopen hwriting =>
    refine h.startWrite hwriting ⟨rfl, rfl⟩ ⟨rfl, rfl⟩ ⟨?_, ?_⟩
    · rw [hopen.submits_eq]
      rfl
    · rw [hopen.submits_eq]
      exact le_rfl
  | writeDeferred hopen hwriting hreg =>
    refine h.startWrite hwriting ⟨rfl, rfl⟩ ⟨rfl, rfl⟩ ⟨?_, ?_⟩
    · rw [hopen.submits_eq, submits_assertEffect]
      rfl
    · rw [hopen.submits_eq, submits_assertEffect]
      exact Nat.le_succ _

/-- A completion is handed to the event: it takes the flag and the callback with it. -/
theorem dispatch {e : Dir} {sys : Sys} {effects : List IoEffect} {p : Option IoBuf}
    (h : v.Side d) (hbatch : 0 < v.batched e) (ho : Udp.DispatchOutcome v.u sys e u' effects) :
    Side ⟨u', v.queued, Function.update v.batched e (v.batched e - 1), p⟩ d := by
  by_cases he : d = e
  · subst he
    have hcount := h.count
    rw [h.flag_of_pos (by omega), Bool.toNat_true] at hcount
    have hzero : v.queued d + Function.update v.batched d (v.batched d - 1) d ≤ 0 := by
      rw [Function.update_self]
      omega
    cases ho with
    | read | write hreg => exact ⟨rfl, hzero⟩
  · have hon := h.on
    have hcount := h.count
    rw [← Function.update_of_ne he (v.batched e - 1) v.batched] at hcount
    cases ho with
    | read =>
      cases d with
      | read => exact absurd rfl he
      | write => exact ⟨hon, hcount⟩
    | write hreg =>
      cases d with
      | read => exact ⟨hon, hcount⟩
      | write => exact absurd rfl he

end UdpView.Side

section Step

variable {v v' : UdpView} {a : UdpAct} {d : Dir}

/-- What is done to a UDP event keeps a direction as it should be, if readiness in it is offered
only while an operation is pending. -/
theorem UdpStep.side (hstep : UdpStep v a v') (h : v.Side d)
    (ha : a = .offer d → v.u.flag d = true) : v'.Side d := by
  cases hstep with
  | call hlive hc => exact h.call hc
  | @offer e cr cw completed hnone =>
    refine ⟨h.on, ?_⟩
    dsimp only
    by_cases he : d = e
    · subst he
      rw [Function.update_self, hnone.1, hnone.2]
      show _ ≤ (v.u.flag d).toNat
      rw [ha rfl, Bool.toNat_true]
      split
      · exact le_rfl
      · exact Nat.zero_le _
    · rw [Function.update_of_ne he]
      exact h.count
  | dispatch hbatch ho => exact h.dispatch hbatch ho
  | free hlive | link => exact ⟨h.on, h.count⟩
  | poll hbatch hmoved =>
    have hcount := h.count
    rw [hbatch d, Nat.add_zero] at hcount
    refine ⟨h.on, ?_⟩
    dsimp only
    rw [hmoved d]
    exact hcount

/-- What is done to a UDP event keeps its registration in order, if the interest in writing is taken
back. -/
theorem UdpStep.registered (hstep : UdpStep v a v') (h : v.u.Registered) (ha : a.takesBack v) :
    v'.u.Registered := by
  cases hstep with
  | call hlive hc =>
    cases hc with
    | quiet hopen hret => exact h.opening hlive hopen rfl id
    | readStarted hreading =>
      have hsame : ∀ fresh, Opening fresh v.u.reactorEvents v.u.sock _ _ [] := fun _ ↦ .same
      exact h.opening hlive (hsame ⟨0, 0, 0⟩) rfl id
    | writeQueued hopen hwriting => exact h.opening hlive hopen rfl fun _ ↦ rfl
    | writeDeferred hopen hwriting hreg =>
      have hopened : Udp.Registered { v.u with reactorEvents := _, sock := _, writing := true } :=
        h.opening hlive hopen rfl fun _ ↦ rfl
      have hreg' := hopened.modify rfl hlive hreg
      exact ⟨hreg'.mirror, hreg'.unopened, hreg'.closed, hreg'.writes⟩
  | dispatch hbatch ho =>
    cases ho with
    | read => exact ⟨h.mirror, h.unopened, h.closed, h.writes⟩
    | write hreg => exact h.drop ha hreg rfl rfl rfl
  | free hlive => exact ⟨nofun, nofun, fun _ ↦ rfl, fun hopen ↦ absurd rfl hopen⟩
  | offer completed hnone | link => exact ⟨h.mirror, h.unopened, h.closed, h.writes⟩
  | poll hbatch hmoved => exact h

/-- While a read is pending, its buffer is the one that data is received into. -/
theorem UdpStep.bufRead (hstep : UdpStep v a v')
    (h : v.u.reading = true → v.pending = some v.u.bufRead) :
    v'.u.reading = true → v'.pending = some v'.u.bufRead := by
  cases hstep with
  | @call c op fresh u' effects ret hlive hc =>
    cases hc with
    | quiet hopen hret =>
      have hstarted : IoLoop.startedRead c ret = none := by
        unfold IoLoop.startedRead
        split
        · next b cb => exact absurd rfl (hret b cb rfl)
        · rfl
      rw [hstarted]
      exact h
    | readStarted hreading => exact fun _ ↦ rfl
    | writeQueued hopen hwriting | writeDeferred hopen hwriting hreg => exact h
  | dispatch hbatch ho =>
    cases ho with
    | read => exact nofun
    | write hreg => exact h
  | offer completed hnone | free hlive | link | poll hbatch hmoved => exact h

theorem UdpStep.matched (hstep : UdpStep v a v') (h : v.Matched) (ha : a.matchable v) :
    v'.Matched := by
  have hside : ∀ d, v'.Side d := by
    intro d
    refine hstep.side (h.side d) ?_
    rintro rfl
    exact ha
  exact ⟨hstep.registered h.registered ha.takesBack, fun d ↦ (hside d).on,
    fun d ↦ (hside d).count, hstep.bufRead h.pending⟩

end Step

/-! ## The loop -/

namespace IoLoop

variable {s s' : IoLoop} {a : Action}

theorem Steps.received_cases (hstep : s.Steps a s') (hw : s.Wf) :
    s'.received = s.received ∨
      ∃ i u reported offers, s.phase = .polling reported ((i, .read) :: offers) ∧
        s.mem i = some (.udp u) ∧ s'.received = s.received ++ [⟨i, u.bufRead, s.udpPending i⟩] := by
  cases hstep with
  | free => exact .inl (by rw [eventFree_eq])
  | processEndgame hp hx => exact .inl (by rw [hw.processEndgame_eq hx])
  | @dispatchTcp i t d rest sys =>
    refine .inl ?_
    unfold IoLoop.dispatchTcp
    rcases t.tcpProactorCallback d sys s.fresh with ⟨t', client, effects⟩
    cases client <;> rfl
  | @offerUdp i u d sys reported offers hp ho =>
    unfold IoLoop.offerUdp
    dsimp only
    split
    · exact .inr ⟨i, u, reported, offers, hp, ho, rfl⟩
    · exact .inl rfl
  | _ => exact .inl rfl

theorem Steps.deliveries_cases (hstep : s.Steps a s') (hw : s.Wf) :
    s'.deliveries = s.deliveries ∨
      ∃ i d rest, s.batch = (i, d) :: rest ∧
        s'.deliveries = s.deliveries ++
          [⟨s.typeOf i, i, d, (s.mem i).map fun o ↦ (o.proactor.flag d, o.hasCallback d)⟩] := by
  cases hstep with
  | free => exact .inl (by rw [eventFree_eq])
  | processEndgame hp hx => exact .inl (by rw [hw.processEndgame_eq hx])
  | @dispatchTcp i t d rest sys hp hb ho =>
    refine .inr ⟨i, d, rest, hb, ?_⟩
    unfold IoLoop.dispatchTcp
    rcases t.tcpProactorCallback d sys s.fresh with ⟨t', client, effects⟩
    cases client <;> rfl
  | dispatchUdp hp hb ho | dispatchAsync hp hb ho | dispatchNone hp hb ho =>
    exact .inr ⟨_, _, _, hb, rfl⟩
  | _ => exact .inl rfl

/-- An operation of the direction is pending, if the event is a UDP event. -/
def UdpPending (d : Dir) (o : Obj) : Prop := ∀ u, o = .udp u → u.flag d = true

theorem udpPending_steady : Steady UdpPending where
  send := by
    rintro d x written - u hu
    cases hu
  tcp := by
    rintro d e t sys fresh t' completed effects - - - u hu
    cases hu
  udp := by
    rintro d e u sys - h u' hu'
    obtain ⟨cr, cw, hcb⟩ := u.reactorCb_eq d sys
    obtain rfl := Obj.udp.inj hu'
    rw [hcb]
    exact h u rfl
  async := by
    rintro e x sys - - u hu
    cases hu

/-- The kernel reports a UDP event as readable, in error or hung up only while a read is pending on
it; and `epoll_ctl` takes back the interest in writing when a write is completed. -/
def readExpected (s : IoLoop) : Action → Bool
  | .report i r =>
    match s.mem i with
    | some (.udp u) => decide (r = .writable) || u.reading
    | _ => true
  | .dispatch sys =>
    match s.batch with
    | (i, .write) :: _ =>
      match s.mem i with
      | some (.udp u) => u.deleted || sys.epollCtl.isNone
      | _ => true
    | _ => true
  | _ => true

theorem readExpected_report {i : ℕ} {r : Report} {u : Udp} (h : s.readExpected (.report i r) = true)
    (hu : s.mem i = some (.udp u)) : r = .writable ∨ u.reading = true := by
  rw [readExpected, hu] at h
  simpa using h

theorem readExpected_dispatch {i : ℕ} {sys : Sys} {rest : List (ℕ × Dir)} {u : Udp}
    (h : s.readExpected (.dispatch sys) = true) (hb : s.batch = (i, .write) :: rest)
    (hu : s.mem i = some (.udp u)) (hlive : u.deleted = false) : sys.epollCtl = none := by
  rw [readExpected, hb] at h
  dsimp only at h
  rw [hu] at h
  simpa [hlive] using h

theorem sock_of_report {r : Report} {u : Udp} (hr : r.possible (Obj.udp u).interest = true) :
    u.sock ≠ none := by
  intro hnone
  rw [Obj.interest, Obj.sock, hnone] at hr
  cases r <;> cases hr

/-- The kernel reports writability, and an event in error or hung up for writing, only while a write
is pending. -/
theorem writing_of_report {i : ℕ} {r : Report} {u : Udp} (hreg : u.Registered)
    (hr : r.possible (Obj.udp u).interest = true)
    (he : (i, Dir.write) ∈ r.offers i u.reactorEvents) : u.writing = true := by
  obtain ⟨k, hk⟩ := Option.ne_none_iff_exists'.mp (sock_of_report hr)
  refine hreg.writes (by rw [hk]; exact nofun) ?_
  cases r with
  | readable => simp [Report.offers] at he
  | writable =>
    rw [← hreg.mirror k hk]
    rw [Obj.interest, Obj.sock, hk] at hr
    exact hr
  | hangup =>
    refine Bool.eq_true_of_not_eq_false fun hwrite ↦ ?_
    rw [Report.offers, hwrite] at he
    cases hread : u.reactorEvents.read <;> simp [hread] at he

/-- What is received for UDP events and what is delivered to them is expected by them. -/
structure Matched (s : IoLoop) : Prop where
  wf : s.Wf
  udp : s.UdpInv UdpView.Matched
  addressed : s.Addressed fun type ↦ type = .udp
  offered : s.Offered UdpPending
  received : ∀ r ∈ s.received, r.pending = some r.buf
  delivered : ∀ x ∈ s.deliveries, x.type = some .udp → x.found = some (true, true)

theorem init_matched : init.Matched where
  wf := init_wf
  udp := init_udpInv _
  addressed := init_addressed _
  offered := nofun
  received := nofun
  delivered := nofun

namespace Matched

theorem found {i : ℕ} {d : Dir} {rest : List (ℕ × Dir)} (h : s.Matched)
    (hb : s.batch = (i, d) :: rest) (htype : s.typeOf i = some .udp) :
    (s.mem i).map (fun o ↦ (o.proactor.flag d, o.hasCallback d)) = some (true, true) := by
  have hmem : (i, d) ∈ s.queue ++ s.batch := by
    rw [hb]
    exact List.mem_append_right _ List.mem_cons_self
  obtain ⟨o, ho⟩ := Option.ne_none_iff_exists'.mp (h.addressed _ hmem _ htype rfl)
  have hotype := Option.some.inj ((h.wf.memory.typeOf ho).symm.trans htype)
  cases o with
  | tcp t | async x => cases hotype
  | udp u =>
    have hu := h.udp i u ho
    have hflag : u.flag d = true := (hu.side d).flag_of_pos (mem_under_way.mp hmem)
    have hon : (u.on d).isSome = true := (hu.on d).trans hflag
    have hcallback : (Obj.udp u).hasCallback d = true := by cases d <;> exact hon
    rw [ho, Option.map_some, hcallback]
    exact congrArg (fun b ↦ some (b, true)) hflag

theorem step (h : s.Matched) (ha : s.readExpected a = true) (hstep : s.step a = some s') :
    s'.Matched where
  wf := (step_eq_some hstep).wf h.wf
  udp := by
    refine h.udp.step (A := fun v act ↦ act.matchable v) h.wf hstep (fun v hv ↦ hv.matched)
      (fun v act v' hudp hv hact ↦ hudp.matched hv hact) ?_
    intro i u act hu hdoes
    cases act with
    | offer d =>
      obtain ⟨sys, reported, offers, -, hp⟩ := hdoes
      exact h.offered reported _ hp (i, d) List.mem_cons_self _ hu u rfl
    | dispatch d sys =>
      obtain ⟨rfl, rest, hb⟩ := hdoes
      cases d with
      | read => trivial
      | write => exact readExpected_dispatch ha hb hu
    | _ => trivial
  addressed := by
    refine (step_eq_some hstep).addressed h.wf h.addressed fun j o d ho htype hpos ↦ ?_
    cases o with
    | tcp t | async x => cases htype
    | udp u =>
      have hflag : u.flag d = true := ((h.udp j u ho).side d).flag_of_pos hpos
      cases d with
      | read => exact Bool.or_eq_true_iff.mpr (.inl hflag)
      | write => exact Bool.or_eq_true_iff.mpr (.inr hflag)
  offered := by
    refine (step_eq_some hstep).offered h.wf h.offered udpPending_steady ?_
    rintro i r o d rfl ho hr - he u rfl
    cases d with
    | read =>
      rcases readExpected_report ha ho with rfl | hreading
      · simp [Report.offers] at he
      · exact hreading
    | write => exact writing_of_report (h.udp i u ho).registered hr he
  received := by
    rcases (step_eq_some hstep).received_cases h.wf with heq | ⟨i, u, seen, offers, hp, hu, heq⟩
    · rw [heq]
      exact h.received
    · intro r hr
      rw [heq, List.mem_append, List.mem_singleton] at hr
      rcases hr with hr | rfl
      · exact h.received r hr
      · exact (h.udp i u hu).pending (h.offered seen _ hp (i, .read) List.mem_cons_self _ hu u rfl)
  delivered := by
    rcases (step_eq_some hstep).deliveries_cases h.wf with heq | ⟨i, d, rest, hb, heq⟩
    · rw [heq]
      exact h.delivered
    · intro x hx htype
      rw [heq, List.mem_append, List.mem_singleton] at hx
      rcases hx with hx | rfl
      · exact h.delivered x hx htype
      · exact h.found hb htype

end Matched

/-- **UDP completions match pending operations** in a run in which the kernel reports a UDP event as
readable, in error or hung up only while a read is pending on it, and takes back the interest in
writing when a write is completed: data is received only into the buffer of the pending read, and
every completion that is delivered to a UDP event finds its memory, its flag and its callback. -/
theorem matched_of_readExpected
    (h : Reachable step (fun s a ↦ s.readExpected a = true) init s) :
    (∀ r ∈ s.received, r.pending = some r.buf) ∧
      ∀ x ∈ s.deliveries, x.type = some .udp → x.found = some (true, true) := by
  have hm : s.Matched := h.invariant init_matched fun s a s' hs ha hstep ↦ hs.step ha hstep
  exact ⟨hm.received, hm.delivered⟩

/-- A datagram arrives for a pending read, while a write waits until the socket is writable. -/
def readThenWrite : List Action :=
  [.new .udp, .udp 0 (.bind ⟨2, 7⟩) (.ok 0), .udp 0 (.read ⟨9, 16⟩ true) (.ok 0),
    .udp 0 (.write ⟨4, 8⟩ (some ⟨2, 7⟩) true) { Sys.ok 0 with io := .wouldBlock }, .runEnter,
    .processEndgame, .epollWait, .report 0 .readable, .offer (.ok 5), .pollReturn,
    .dispatch (.ok 0), .callbackReturn, .nextRound, .processEndgame, .epollWait,
    .report 0 .writable, .offer (.ok 4), .pollReturn, .dispatch (.ok 0)]

theorem matched_of_readExpected_readThenWrite :
    ∃ s, exec step (fun s a ↦ s.readExpected a = true) init readThenWrite = some s ∧
      s.received = [⟨0, ⟨9, 16⟩, some ⟨9, 16⟩⟩] ∧ s.deliveries.length = 2 ∧
      (∀ r ∈ s.received, r.pending = some r.buf) ∧
      ∀ x ∈ s.deliveries, x.type = some .udp → x.found = some (true, true) := by
  have hrun : ((exec step (fun s a ↦ s.readExpected a = true) init readThenWrite).map fun s ↦
      (s.received, s.deliveries.length)) = some ([⟨0, ⟨9, 16⟩, some ⟨9, 16⟩⟩], 2) := by
    decide +kernel
  obtain ⟨s, hs, hfields⟩ := Option.map_eq_some_iff.mp hrun
  obtain ⟨hreceived, hlength⟩ := Prod.mk.inj hfields
  exact ⟨s, hs, hreceived, hlength, matched_of_readExpected (Reachable.of_exec hs)⟩

/-- A datagram arrives for a pending read, and another one after the read has been completed. -/
def secondDatagram : List Action :=
  [.new .udp, .udp 0 (.bind ⟨2, 7⟩) (.ok 0), .udp 0 (.read ⟨9, 16⟩ true) (.ok 0), .runEnter,
    .processEndgame, .epollWait, .report 0 .readable, .offer (.ok 5), .pollReturn,
    .dispatch (.ok 0), .callbackReturn, .nextRound, .processEndgame, .epollWait,
    .report 0 .readable, .offer (.ok 6), .pollReturn, .dispatch (.ok 0)]

/-- Datagrams arrive for two events, of which only the first one reads; its callback frees the
other one. -/
def freeOtherInCallback : List Action :=
  [.new .udp, .new .udp, .udp 0 (.bind ⟨2, 7⟩) (.ok 0), .udp 1 (.bind ⟨2, 8⟩) (.ok 0),
    .udp 0 (.read ⟨9, 16⟩ true) (.ok 0), .runEnter, .processEndgame, .epollWait,
    .report 0 .readable, .offer (.ok 5), .report 1 .readable, .offer (.ok 0), .pollReturn,
    .dispatch (.ok 0), .free 1, .callbackReturn, .dispatch (.ok 0)]

/-- The second datagram is received into the buffer of the read that is over, its completion finds
neither the flag nor a callback, and two assertions fail. In the other run the completion is
delivered to memory that has been released. -/
theorem unexpectedDatagram_not_matched :
    (∃ s, Reachable step anyStep init s ∧ ⟨0, ⟨9, 16⟩, none⟩ ∈ s.received ∧
        ⟨some .udp, 0, .read, some (false, false)⟩ ∈ s.deliveries ∧ s.assertFailures = [0, 0]) ∧
      ∃ s, Reachable step anyStep init s ∧ s.released = [1] ∧
        ⟨some .udp, 1, .read, none⟩ ∈ s.deliveries := by
  constructor
  · have hrun : ((exec step anyStep init secondDatagram).map fun s ↦
        (s.received, s.deliveries, s.assertFailures)) =
        some ([⟨0, ⟨9, 16⟩, some ⟨9, 16⟩⟩, ⟨0, ⟨9, 16⟩, none⟩],
          [⟨some .udp, 0, .read, some (true, true)⟩, ⟨some .udp, 0, .read, some (false, false)⟩],
          [0, 0]) := by decide +kernel
    obtain ⟨s, hs, hfields⟩ := Option.map_eq_some_iff.mp hrun
    simp only [Prod.mk.injEq] at hfields
    obtain ⟨hreceived, hdeliveries, hasserts⟩ := hfields
    exact ⟨s, Reachable.of_exec hs, by simp [hreceived], by simp [hdeliveries], hasserts⟩
  · have hrun : ((exec step anyStep init freeOtherInCallback).map fun s ↦
        (s.released, s.deliveries)) =
        some ([1], [⟨some .udp, 0, .read, some (true, true)⟩, ⟨some .udp, 1, .read, none⟩]) := by
      decide +kernel
    obtain ⟨s, hs, hfields⟩ := Option.map_eq_some_iff.mp hrun
    obtain ⟨hreleased, hdeliveries⟩ := Prod.mk.inj hfields
    exact ⟨s, Reachable.of_exec hs, hreleased, by simp [hdeliveries]⟩

end IoLoop

end Nanoev
