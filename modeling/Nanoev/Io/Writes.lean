import Nanoev.Io.Completion
import Nanoev.Io.Offers

/-!
# The bytes that TCP writes send

A write of a TCP event is tried at once by `nanoev_tcp_write`, and again by `reactor_cb` when the
socket becomes writable. The calls of `write` are recorded here, beside the state of the loop, with
the operation each of them is made for.

As long as a write is pending and has no completion on the way, none of its calls has sent anything.
The call that sends bytes puts the completion on the way, and until it is delivered nothing is
written for the event: the client cannot start another write, and the direction is not offered to
`reactor_cb`. So the bytes that `on_write` reports are those of one call, and the calls of an event
that have sent something are in the order of its callbacks.
-/

namespace Nanoev

open Transition

/-- A call of `write` for an event, with the operation that it is made for. -/
structure KernelWrite where
  event : ℕ
  op : Option ℕ
  buf : IoBuf
  result : IoResult
deriving DecidableEq, Repr

namespace KernelWrite

def sent (w : KernelWrite) : ℕ :=
  match w.result with
  | .done n => n
  | _ => 0

/-- What a call has sent for event `i`: the operation and the number of bytes. -/
def share (i : ℕ) (w : KernelWrite) : Option (ℕ × ℕ) :=
  if w.event = i ∧ 0 < w.sent then w.op.map fun o ↦ (o, w.sent) else none

/-! ## Records of calls

The final call for an operation is the last one that is made for it; the calls before it have sent
nothing, so what it sends is the share of the operation. An operation for which nothing has been
sent has no share, and the newest call of an event has the last one. -/

def Unsent (o : ℕ) (l : List KernelWrite) : Prop := ∀ w ∈ l, w.op = some o → w.sent = 0

/-- The call `w` is the last one for its operation, and those before have sent nothing. -/
def Final (w : KernelWrite) (l : List KernelWrite) : Prop :=
  ∃ l₁ l₂, l = l₁ ++ w :: l₂ ∧ (∀ x ∈ l₁, x.op = w.op → x.sent = 0) ∧ ∀ x ∈ l₂, x.op ≠ w.op

/-- Moreover, nothing has been sent for its event since. -/
def Newest (w : KernelWrite) (l : List KernelWrite) : Prop :=
  ∃ l₁ l₂, l = l₁ ++ w :: l₂ ∧ (∀ x ∈ l₁, x.op = w.op → x.sent = 0) ∧
    ∀ x ∈ l₂, x.op ≠ w.op ∧ (x.event = w.event → x.sent = 0)

variable {o i : ℕ} {l new : List KernelWrite} {w : KernelWrite}

theorem Unsent.append (h : Unsent o l) (hnew : ∀ x ∈ new, x.op = some o → x.sent = 0) :
    Unsent o (l ++ new) := by
  intro x hx hop
  exact (List.mem_append.mp hx).elim (fun hx ↦ h x hx hop) fun hx ↦ hnew x hx hop

theorem Unsent.newest (h : Unsent o l) (hop : w.op = some o) : w.Newest (l ++ [w]) :=
  ⟨l, [], rfl, fun x hx hxo ↦ h x hx (hxo.trans hop), nofun⟩

theorem Newest.final (h : w.Newest l) : w.Final l := by
  obtain ⟨l₁, l₂, hl, hbefore, hafter⟩ := h
  exact ⟨l₁, l₂, hl, hbefore, fun x hx ↦ (hafter x hx).1⟩

theorem Newest.append (h : w.Newest l)
    (hnew : ∀ x ∈ new, x.op ≠ w.op ∧ (x.event = w.event → x.sent = 0)) : w.Newest (l ++ new) := by
  obtain ⟨l₁, l₂, rfl, hbefore, hafter⟩ := h
  refine ⟨l₁, l₂ ++ new, by rw [List.append_assoc, List.cons_append], hbefore, fun x hx ↦ ?_⟩
  exact (List.mem_append.mp hx).elim (hafter x) (hnew x)

theorem Final.append (h : w.Final l) (hnew : ∀ x ∈ new, x.op ≠ w.op) : w.Final (l ++ new) := by
  obtain ⟨l₁, l₂, rfl, hbefore, hafter⟩ := h
  refine ⟨l₁, l₂ ++ new, by rw [List.append_assoc, List.cons_append], hbefore, fun x hx ↦ ?_⟩
  exact (List.mem_append.mp hx).elim (hafter x) (hnew x)

theorem Final.filter_eq (h : w.Final l) :
    ∃ before, l.filter (fun x ↦ x.op = w.op) = before ++ [w] ∧ ∀ x ∈ before, x.sent = 0 := by
  obtain ⟨l₁, l₂, rfl, hbefore, hafter⟩ := h
  refine ⟨l₁.filter fun x ↦ x.op = w.op, ?_, fun x hx ↦ ?_⟩
  · have hnil : l₂.filter (fun x ↦ x.op = w.op) = [] :=
      List.filter_eq_nil_iff.mpr fun x hx ↦ by simpa using hafter x hx
    rw [List.filter_append, List.filter_cons_of_pos (by simp), hnil]
  · obtain ⟨hx, hop⟩ := List.mem_filter.mp hx
    exact hbefore x hx (by simpa using hop)

theorem share_eq_some {p : ℕ × ℕ} :
    w.share i = some p ↔ w.event = i ∧ 0 < w.sent ∧ w.op = some p.1 ∧ p.2 = w.sent := by
  unfold share
  split
  · next h =>
    rw [Option.map_eq_some_iff]
    constructor
    · rintro ⟨o, ho, rfl⟩
      exact ⟨h.1, h.2, ho, rfl⟩
    · rintro ⟨-, -, ho, hn⟩
      exact ⟨p.1, ho, by rw [← hn]⟩
  · next h =>
    constructor
    · exact nofun
    · rintro ⟨hi, hpos, -⟩
      exact absurd ⟨hi, hpos⟩ h

theorem Unsent.fst_ne (h : Unsent o l) {p : ℕ × ℕ} (hp : p ∈ l.filterMap (share i)) : p.1 ≠ o := by
  rintro rfl
  obtain ⟨w, hw, hshare⟩ := List.mem_filterMap.mp hp
  obtain ⟨-, hpos, hop, -⟩ := share_eq_some.mp hshare
  exact absurd (h w hw hop) hpos.ne'

theorem Newest.shares_eq (h : w.Newest l) (hop : w.op = some o) (hpos : 0 < w.sent) :
    ∃ before, l.filterMap (share w.event) = before ++ [(o, w.sent)] ∧ ∀ p ∈ before, p.1 ≠ o := by
  obtain ⟨l₁, l₂, rfl, hbefore, hafter⟩ := h
  have hself : w.share w.event = some (o, w.sent) := share_eq_some.mpr ⟨rfl, hpos, hop, rfl⟩
  have hnil : l₂.filterMap (share w.event) = [] := by
    refine List.filterMap_eq_nil_iff.mpr fun x hx ↦ ?_
    refine Option.eq_none_iff_forall_ne_some.mpr fun p hp ↦ ?_
    obtain ⟨hevent, hsent, -⟩ := share_eq_some.mp hp
    exact absurd ((hafter x hx).2 hevent) hsent.ne'
  have hunsent : Unsent o l₁ := fun x hx hxo ↦ hbefore x hx (hxo.trans hop.symm)
  refine ⟨l₁.filterMap (share w.event), ?_, fun p hp ↦ hunsent.fst_ne hp⟩
  rw [List.filterMap_append, List.filterMap_cons_some hself, hnil]

end KernelWrite

/-! ## The write direction of a TCP event

Most steps leave the write direction as it is (`keepsWrite`): calls that do not write, offers for
which nothing is written, and what is done to other events. What is left is the call that writes at
once, the offer that writes, and the completion. -/

namespace Tcp

open KernelWrite

/-- How far the pending write of an event is, if there is one: `n` is the number of completions on
the way. -/
def Progress (l : List KernelWrite) (i : ℕ) (t : Tcp) (n : ℕ) : Prop :=
  ∀ o, t.onWrite = some o →
    if 0 < n ∧ t.ctxWrite.status = 0 then
      0 < t.ctxWrite.bytes ∧ Newest ⟨i, some o, t.bufWrite, .done t.ctxWrite.bytes⟩ l
    else Unsent o l

/-- The pending write stays as it is, unless there is none any more. -/
def KeepsWrite (t t' : Tcp) (n n' : ℕ) : Prop :=
  t'.onWrite = none ∨
    t'.onWrite = t.onWrite ∧ t'.bufWrite = t.bufWrite ∧ t'.ctxWrite = t.ctxWrite ∧ n' = n

theorem KeepsWrite.refl (t : Tcp) (n : ℕ) : t.KeepsWrite t n n := .inr ⟨rfl, rfl, rfl, rfl⟩

variable {l new : List KernelWrite} {i n n' : ℕ} {t t' : Tcp}

theorem Progress.of_none (h : t.onWrite = none) : t.Progress l i n := by
  intro o ho
  rw [h] at ho
  cases ho

theorem Progress.keeps (h : t.Progress l i n) (hk : t.KeepsWrite t' n n') : t'.Progress l i n' := by
  rcases hk with hnone | ⟨hop, hbuf, hctx, rfl⟩
  · exact .of_none hnone
  · intro o ho
    rw [hbuf, hctx]
    exact h o (hop.symm.trans ho)

theorem Progress.append (h : t.Progress l i n) (hevent : ∀ w ∈ new, w.event ≠ i)
    (hop : ∀ w ∈ new, ∀ o, t.onWrite = some o → w.op ≠ some o) : t.Progress (l ++ new) i n := by
  intro o ho
  have hold := h o ho
  split at hold
  · next hc =>
    rw [if_pos hc]
    exact ⟨hold.1, hold.2.append fun x hx ↦
      ⟨hop x hx o ho, fun he ↦ absurd he (hevent x hx)⟩⟩
  · next hc =>
    rw [if_neg hc]
    exact hold.append fun x hx hxo ↦ absurd hxo (hop x hx o ho)

theorem TimeoutOutcome.keepsWrite {d : Dir} {sys : Sys} {effects : List IoEffect}
    (h : TimeoutOutcome t d sys t' effects) (n : ℕ) : t.KeepsWrite t' n n := by
  cases h with
  | writeExpired => exact .inl rfl
  | _ => exact .inr ⟨rfl, rfl, rfl, rfl⟩

end Tcp

namespace TcpView.Ok

open Tcp KernelWrite

variable {v : TcpView} {t' : Tcp} {sys : Sys} {fresh : Fresh} {effects : List IoEffect} {d : Dir}

theorem onWrite_eq_none (h : v.Ok) (hconnected : v.t.connected = false) : v.t.onWrite = none :=
  h.write.onIo_eq_none hconnected

theorem call_keepsWrite {op : ℕ} {c : TcpCall} {ret : RetCode} (h : v.Ok)
    (hlive : v.t.deleted = false) (hopen : opens c = true → v.t.error = false)
    (hc : CallOutcome v.t op sys fresh c t' effects ret)
    (hnot : ∀ b timeout, c = .write b timeout true → v.t.triesWrite b timeout true = false)
    (n : ℕ) :
    v.t.KeepsWrite t' n (n + submits effects .write) := by
  have hidle : v.t.writing = false → v.t.onWrite = none := fun hw ↦ (h.write_idle hw).onIo
  cases hc with
  | noSocket hc hsock | openFailed hc hsock =>
    exact .inl (hidle (h.pristine (hopen hc) hlive hsock).2.1)
  | connectQueued hsock | connectDeferred hsock =>
    exact .inl (hidle (h.pristine (hopen rfl) hlive hsock).2.1)
  | writeFailed hconnected herror hwriting => exact .inl (hidle hwriting)
  | writeQueued _ _ _ _ _ htries | writeDeferred _ _ _ _ _ _ _ htries =>
    exact absurd (htries.symm.trans (hnot _ _ rfl)) (by decide)
  | acceptFailed _ _ _ _ heffects =>
    rcases heffects with rfl | rfl <;> exact .inr ⟨rfl, rfl, rfl, rfl⟩
  | _ => exact .inr ⟨rfl, rfl, rfl, rfl⟩

theorem offer_keepsWrite {completed : Bool} (h : v.Ok)
    (ho : OfferOutcome v.t d sys fresh t' completed effects)
    (hnot : d = .write → v.t.writing = true → v.t.connected = false) :
    v.t.KeepsWrite t' (v.queued .write + v.batched .write) (v.queued .write +
      Function.update v.batched d (v.batched d + if completed then 1 else 0) .write) := by
  cases ho with
  | nothing =>
    refine .inr ⟨rfl, rfl, rfl, ?_⟩
    rw [if_neg Bool.false_ne_true, Nat.add_zero, Function.update_eq_self]
  | write hd hwriting hconnected =>
    exact absurd (hconnected.symm.trans (hnot hd hwriting)) (by decide)
  | connect hd hwriting hconnected => exact .inl (h.onWrite_eq_none hconnected)
  | read hd | accepted hd | acceptFailed hd =>
    subst hd
    exact .inr ⟨rfl, rfl, rfl, by rw [Function.update_of_ne (by decide)]⟩

theorem dispatch_keepsWrite {client : Option Tcp} (h : v.Ok) (hbatch : 0 < v.batched d)
    (ho : DispatchOutcome v.t d sys fresh t' client effects) :
    v.t.KeepsWrite t' (v.queued .write + v.batched .write)
      (v.queued .write + Function.update v.batched d (v.batched d - 1) .write) := by
  obtain ⟨hflag, -⟩ := h.completed hbatch
  cases ho with
  | readDone hn hd | readStale hn hd =>
    subst hd
    exact .inr ⟨rfl, rfl, rfl, by rw [Function.update_of_ne (by decide)]⟩
  | writeDone => exact .inl rfl
  | writeStale hn hd hconnected hlost =>
    subst hd
    exact (h.write.not_stale hflag hconnected hlost).elim
  | acceptDone hn hconnected | acceptDropped hn hconnected | acceptStale hn hconnected
  | connectDone hn hconnected | connectFailed hn hconnected | connectStale hn hconnected =>
    exact .inl (h.onWrite_eq_none hconnected)

end TcpView.Ok

/-! ## What the callbacks are told -/

namespace Tcp

open KernelWrite

/-- What is passed to a callback, when `n` completions of the write direction are on the way: it is
not `on_write`, or it is passed the completion, or an error without one. -/
def Answers (t : Tcp) (n : ℕ) (c : Call) : Prop :=
  (∃ k, k ≠ .write ∧ t.on k = some c.op) ∨
    t.onWrite = some c.op ∧
      (0 < n ∧ c.status = t.ctxWrite.status ∧ c.bytes = t.ctxWrite.bytes ∨ n = 0 ∧ c.status ≠ 0)

/-- The callbacks invoked by a function, of which there is at most one. -/
inductive Told (t : Tcp) (n : ℕ) : List Call → Prop
  | none : Told t n []
  | one {c : Call} (hlive : t.deleted = false) (hc : t.Answers n c) : Told t n [c]

theorem told_callUnless {t : Tcp} {n : ℕ} {c : Call} (h : t.Answers n c) :
    Told t n ((callUnless t.deleted c).filterMap IoEffect.call?) := by
  cases hdel : t.deleted with
  | true => exact .none
  | false => exact .one hdel h

theorem DispatchOutcome.told {t t' : Tcp} {n : ℕ} {d : Dir} {sys : Sys} {fresh : Fresh}
    {client : Option Tcp} {effects : List IoEffect}
    (h : DispatchOutcome t d sys fresh t' client effects) (hn : d = .write → 0 < n) :
    Told t n (effects.filterMap IoEffect.call?) := by
  have hclose : ∀ slot, (closeAccepted slot).filterMap IoEffect.call? = [] :=
    fun slot ↦ by cases slot <;> rfl
  cases h with
  | readDone _ _ _ _ hop => exact told_callUnless (.inl ⟨.read, by decide, hop⟩)
  | writeDone _ hd _ _ hop => exact told_callUnless (.inr ⟨hop, .inl ⟨hn hd, rfl, rfl⟩⟩)
  | @acceptDone m k er ec op _ _ _ _ hop hdeleted =>
    obtain ⟨status, new, hcall⟩ : ∃ status new, (acceptClient t.readSlot.allocUserdata
        t.readSlot.socketAccept (t.ctx d).status op sys fresh).2.filterMap IoEffect.call? =
          [⟨op, status, 0, 0, new⟩] := (acceptClient_outcome ..).call_eq
    rw [hcall]
    exact .one hdeleted (.inl ⟨.accept, by decide, hop⟩)
  | acceptDropped | acceptStale =>
    rw [hclose]
    exact .none
  | connectDone _ _ _ _ hop hdeleted => exact .one hdeleted (.inl ⟨.connect, by decide, hop⟩)
  | connectFailed _ _ _ _ hop => exact told_callUnless (.inl ⟨.connect, by decide, hop⟩)
  | _ => exact .none

theorem Progress.told {l : List KernelWrite} {i n : ℕ} {t : Tcp} {c : Call} (h : t.Progress l i n)
    (hop : t.onWrite = some c.op)
    (hc : 0 < n ∧ c.status = t.ctxWrite.status ∧ c.bytes = t.ctxWrite.bytes ∨
      n = 0 ∧ c.status ≠ 0) :
    if c.status = 0 then
      0 < c.bytes ∧ Newest ⟨i, some c.op, t.bufWrite, .done c.bytes⟩ l
    else Unsent c.op l := by
  have hp := h c.op hop
  rcases hc with ⟨hn, hstatus, hbytes⟩ | ⟨hn, hstatus⟩
  · rw [hstatus, hbytes]
    simpa only [hn, true_and] using hp
  · rw [if_neg hstatus]
    rwa [if_neg (by omega)] at hp

theorem reactorCb_write {t : Tcp} {sys : Sys} {fresh : Fresh} (hwriting : t.writing = true)
    (hconnected : t.connected = true) :
    t.reactorCb .write sys fresh = match sys.io with
      | .done n => ({ t with ctxWrite := ⟨0, n⟩ }, true, [])
      | .wouldBlock => (t, false, [])
      | .failed e => ({ t with ctxWrite := ⟨e.1, 0⟩ }, true, []) :=
  (if_neg (by rw [hwriting]; decide)).trans (if_pos hconnected)

end Tcp

namespace TcpView.Ok

open Tcp

variable {v : TcpView} {t' : Tcp} {sys : Sys} {fresh : Fresh} {effects : List IoEffect} {d : Dir}

theorem timeout_told (h : v.Ok) (hactive : (v.t.timeout d).active = true)
    (hbatch : ∀ d, v.batched d = 0) (ho : TimeoutOutcome v.t d sys t' effects) :
    Told v.t (v.queued .write + v.batched .write) (effects.filterMap IoEffect.call?) := by
  have hclosing : ∀ k, (closing k).filterMap IoEffect.call? = [] := fun k ↦ by cases k <;> rfl
  cases ho with
  | readIgnored | writeIgnored => exact .none
  | acceptExpired _ _ _ hop =>
    rw [List.filterMap_append, hclosing, List.nil_append]
    exact told_callUnless (.inl ⟨.accept, by decide, hop⟩)
  | readExpired _ _ _ hop =>
    rw [List.filterMap_append, hclosing, List.nil_append]
    exact told_callUnless (.inl ⟨.read, by decide, hop⟩)
  | connectExpired _ _ _ hop =>
    rw [List.filterMap_append, hclosing, List.nil_append]
    exact told_callUnless (.inl ⟨.connect, by decide, hop⟩)
  | writeExpired hd _ _ hop =>
    subst hd
    have hq : v.queued .write = 0 := (h.write.timeout hactive).2.1
    rw [List.filterMap_append, hclosing, List.nil_append]
    exact told_callUnless (.inr ⟨hop, .inr ⟨by rw [hq, hbatch], Errno.timedout.2⟩⟩)

end TcpView.Ok

/-! ## Freed events are not offered

The client frees an event outside of polling, and the socket is closed then; so no direction of the
event is on the list of offers, and nothing is written for it any more. -/

def TcpView.Closed (v : TcpView) : Prop := v.t.deleted = true → v.t.sock = none

theorem Tcp.Noted.sock_eq_none {t : Tcp} {d : Dir} {sys : Sys} {m : Mask} {k : Option Socket}
    {er : Bool} (h : Noted t d sys m k er) (hsock : t.sock = none) : k = none := by
  obtain ⟨events, err, -, hreg⟩ := h.reg
  exact (epollPollerModify_eq_none_iff hreg).mpr hsock

theorem TcpStep.closed {v v' : TcpView} {a : TcpAct} (hstep : TcpStep v a v') (h : v.Closed) :
    v'.Closed := by
  cases hstep with
  | @call c op sys fresh t' effects ret hlive hkernel hc =>
    -- no call marks an event as deleted
    have hdel : t'.deleted = v.t.deleted := by cases hc <;> rfl
    intro hd
    exact absurd (hlive.symm.trans (hdel.symm.trans hd)) (by decide)
  | timeout hactive hbatch ho =>
    cases ho with
    | readIgnored | writeIgnored => exact h
    | _ => exact fun _ ↦ rfl
  | offer hnone ho => cases ho <;> exact h
  | dispatch hbatch ho =>
    cases ho with
    | connectDone _ _ _ _ _ hdeleted =>
      intro hd
      exact absurd (hdeleted.symm.trans hd) (by decide)
    | readDone hn | writeDone hn | acceptDone hn | acceptDropped hn | connectFailed hn
    | readStale hn | writeStale hn | acceptStale hn | connectStale hn =>
      exact fun hd ↦ hn.sock_eq_none (h hd)
  | free => exact fun _ ↦ rfl
  | link | poll => exact h

namespace IoLoop

open KernelWrite

/-- An event that the client has not freed, if it is a TCP event. -/
def TcpLive (_ : Dir) : Obj → Prop
  | .tcp t => t.deleted = false
  | _ => True

theorem tcpLive_steady : Steady TcpLive where
  send := fun _ ↦ trivial
  tcp := by
    intro d e t sys fresh t' completed effects ho _ hlive
    have hdel : t'.deleted = t.deleted := by cases ho <;> rfl
    exact hdel.trans hlive
  udp := fun _ _ ↦ trivial
  async := fun _ _ ↦ trivial

variable {s s' : IoLoop} {a : Action}

theorem Steps.offered_tcpLive (hstep : s.Steps a s') (hw : s.Wf) (hclosed : s.TcpInv TcpView.Closed)
    (h : s.Offered TcpLive) : s'.Offered TcpLive := by
  refine hstep.offered hw h tcpLive_steady ?_
  rintro i r o d - ho hr - -
  cases o with
  | tcp t =>
    by_contra hdel
    have hsock : t.sock = none := hclosed i t ho (Bool.eq_true_of_not_eq_false hdel)
    rw [Obj.interest, Obj.sock, hsock] at hr
    cases r <;> cases hr
  | udp | async => trivial

/-! ## The calls of `write` -/

/-- The calls of `write` that an action leads to. -/
def kernelWrites (s : IoLoop) : Action → List KernelWrite
  | .tcp i (.write b timeout callback) sys =>
    match s.mem i with
    | some (.tcp t) =>
      if t.triesWrite b timeout callback then [⟨i, some s.nextOp, b, sys.io⟩] else []
    | _ => []
  | .offer sys =>
    match s.phase with
    | .polling _ ((i, .write) :: _) =>
      match s.mem i with
      | some (.tcp t) =>
        if s.batch.length < maxEvents ∧ t.writing = true ∧ t.connected = true then
          [⟨i, t.onWrite, t.bufWrite, sys.io⟩]
        else []
      | _ => []
    | _ => []
  | _ => []

/-- What calls of `write` there can be. -/
inductive Writing (s : IoLoop) : Action → List KernelWrite → Prop
  | none (a : Action) : Writing s a []
  | atOnce {i t b timeout callback sys} (ho : s.mem i = some (.tcp t))
      (htries : t.triesWrite b timeout callback = true) :
    Writing s (.tcp i (.write b timeout callback) sys) [⟨i, some s.nextOp, b, sys.io⟩]
  | offered {i t sys reported offers} (hp : s.phase = .polling reported ((i, .write) :: offers))
      (ho : s.mem i = some (.tcp t)) (hroom : s.batch.length < maxEvents)
      (hwriting : t.writing = true) (hconnected : t.connected = true) :
    Writing s (.offer sys) [⟨i, t.onWrite, t.bufWrite, sys.io⟩]

theorem writing_kernelWrites (s : IoLoop) (a : Action) : s.Writing a (s.kernelWrites a) := by
  unfold kernelWrites
  split
  · split
    · next ho =>
      split
      · next htries => exact .atOnce ho htries
      · exact .none _
    · exact .none _
  · split
    · next hp =>
      split
      · next ho =>
        split
        · next hc => exact .offered hp ho hc.1 hc.2.1 hc.2.2
        · exact .none _
      · exact .none _
    · exact .none _
  · exact .none _

/-! ## What a step does to the record

A step makes at most one call of `write` and invokes at most one callback, and never both. So there
are three cases, and only the last two need an argument. -/

theorem Steps.ops_eq {o : ℕ} {p : Op} (hstep : s.Steps a s') (hw : s.Wf) (hl : s.Ledger)
    (hop : s.ops o = some p) : s'.ops o = some p := by
  cases hstep with
  | free => rwa [eventFree_eq]
  | processEndgame hp hx => rwa [hw.processEndgame_eq hx]
  | @tcp i t c sys =>
    have hne : o ≠ s.nextOp := by
      rintro rfl
      rw [hl.ops_lt le_rfl] at hop
      cases hop
    unfold IoLoop.tcpCall
    rcases c.run t s.nextOp sys s.fresh with ⟨t', effects, ret⟩
    cases c.op? with
    | none => exact hop
    | some q => exact (Function.update_of_ne hne _ _).trans hop
  | @dispatchTcp i t d rest sys =>
    unfold IoLoop.dispatchTcp
    rcases t.tcpProactorCallback d sys s.fresh with ⟨t', client, effects⟩
    cases client <;> exact hop
  | _ => exact hop

/-- The callbacks of TCP events that a step invokes, with what they are told. -/
inductive Serves (s : IoLoop) (a : Action) (s' : IoLoop) : Prop
  | none (hcalls : s'.tcpCalls = s.tcpCalls)
  | one {i : ℕ} {t : Tcp} {c : Call} (ho : s.mem i = some (.tcp t)) (hf : s.freed i = false)
      (hquiet : s.kernelWrites a = [])
      (hcalls : s'.tcpCalls = s.tcpCalls ++ [⟨.tcp, i, s.freed i, c⟩])
      (hc : t.Answers (s.queued i .write + s.batched i .write) c)

theorem Serves.of_told {i : ℕ} {t : Tcp} {cs : List Call} (hw : s.Wf)
    (ho : s.mem i = some (.tcp t)) (hquiet : s.kernelWrites a = [])
    (htold : t.Told (s.queued i .write + s.batched i .write) cs)
    (hcalls : s'.calls = s.calls ++ cs.map fun c ↦ ⟨.tcp, i, s.freed i, c⟩) : s.Serves a s' := by
  have hcalls := tcpCalls_of_tcp hcalls
  cases htold with
  | none => exact .none (hcalls.trans (List.append_nil _))
  | one hlive hc => exact .one ho ((hw.memory.deleted ho).symm.trans hlive) hquiet hcalls hc

theorem Steps.serves (hstep : s.Steps a s') (hw : s.Wf) (hok : s.TcpInv TcpView.Ok) :
    s.Serves a s' := by
  cases hstep with
  | free => exact .none (tcpCalls_congr (by rw [eventFree_eq]))
  | processEndgame hp hx => exact .none (tcpCalls_congr (by rw [hw.processEndgame_eq hx]))
  | @tcp i t c sys ho =>
    have hout : Tcp.CallOutcome t s.nextOp sys s.fresh c _ _ _ := Tcp.run_outcome c
    refine .none (tcpCalls_congr ?_)
    show s.calls ++ (List.filterMap IoEffect.call? (c.run t s.nextOp sys s.fresh).2.1).map _ = _
    rw [hout.call_eq_nil, List.map_nil, List.append_nil]
  | udp | asyncStart | dispatchUdp | dispatchAsync => exact .none (tcpCalls_of_ne (by decide) rfl)
  | @timeoutFires i t d sys ho hp hactive =>
    have hbatch : ∀ d, s.batched i d = 0 := fun d ↦ batched_of_batch_nil (hw.batch_of_phase hp rfl)
    exact .of_told hw ho rfl ((hok i t ho).timeout_told hactive hbatch (Tcp.timeout_outcome d)) rfl
  | @offerTcp i t d sys reported offers hp ho hk =>
    have hout : Tcp.OfferOutcome t d sys s.fresh _ _ _ := Tcp.offer_outcome hk
    refine .none (tcpCalls_congr ?_)
    show s.calls ++ (List.filterMap IoEffect.call? (t.reactorCb d sys s.fresh).2.2).map _ = _
    rw [hout.call_eq_nil, List.map_nil, List.append_nil]
  | @dispatchTcp i t d rest sys hp hb ho =>
    have hout : Tcp.DispatchOutcome t d sys s.fresh _ _ _ := Tcp.dispatch_outcome d
    have hn : d = .write → 0 < s.queued i .write + s.batched i .write := by
      rintro rfl
      exact Nat.add_pos_right _ (batched_pos hb)
    have hcalls : (s.dispatchTcp i t d rest sys).calls = s.calls ++
        ((t.tcpProactorCallback d sys s.fresh).2.2.filterMap IoEffect.call?).map
          fun c ↦ ⟨.tcp, i, s.freed i, c⟩ := by
      unfold IoLoop.dispatchTcp
      rcases t.tcpProactorCallback d sys s.fresh with ⟨t', client, effects⟩
      cases client <;> rfl
    exact .of_told hw ho rfl (hout.told hn) hcalls
  | _ => exact .none rfl

theorem Steps.freed_eq {j : ℕ} (hstep : s.Steps a s') (hw : s.Wf) (hf : s'.freed j = false) :
    s.freed j = false := by
  cases hstep with
  | @free i o =>
    have hf : Function.update s.freed i true j = false := hf
    rw [Function.update_apply] at hf
    split at hf
    · cases hf
    · exact hf
  | processEndgame hp hx => rwa [hw.processEndgame_eq hx] at hf
  | @dispatchTcp i t d rest sys =>
    unfold IoLoop.dispatchTcp at hf
    rcases hcb : t.tcpProactorCallback d sys s.fresh with ⟨t', client, effects⟩
    rw [hcb] at hf
    cases client <;> exact hf
  | _ => exact hf

theorem Local.keepsWrite {j : ℕ} {t' : Tcp} (h : s.Local a s' j) (hw : s.Wf) (hw' : s'.Wf)
    (hok : s.TcpInv TcpView.Ok) (ha : s.noReconnect a = true) (ht' : s'.mem j = some (.tcp t'))
    (hf' : s'.freed j = false) (hforeign : ∀ w ∈ s.kernelWrites a, w.event ≠ j) :
    t'.onWrite = none ∨ ∃ t, s.mem j = some (.tcp t) ∧
      t.KeepsWrite t' (s.queued j .write + s.batched j .write)
        (s'.queued j .write + s'.batched j .write) := by
  cases h with
  | untouched hmem hstill =>
    refine .inr ⟨t', hmem.symm.trans ht', ?_⟩
    rw [hstill.queued, hstill.batched]
    exact .refl t' _
  | @created o hnone ho' hnew hq hb =>
    obtain rfl := Option.some.inj (ho'.symm.trans ht')
    rcases hnew with ⟨type, htype⟩ | ⟨u, fd, hclient⟩
    · cases type <;> cases htype
      exact .inl rfl
    · obtain rfl := Obj.tcp.inj hclient
      exact .inl rfl
  | released hnone => rw [hnone] at ht'; cases ht'
  | polled _ hmem hbatch hmoved =>
    refine .inr ⟨t', hmem.symm.trans ht', ?_⟩
    rw [hmoved, hbatch, Nat.add_zero]
    exact .refl t' _
  | @linked o n _ ho ho' hstill =>
    have heq := Option.some.inj (ho'.symm.trans ht')
    cases o with
    | tcp t =>
      obtain rfl := Obj.tcp.inj heq
      refine .inr ⟨t, ho, ?_⟩
      rw [hstill.queued, hstill.batched]
      exact .inr ⟨rfl, rfl, rfl, rfl⟩
    | udp | async => cases heq
  | @freed o n _ ho hf hdefers ho' =>
    -- the event is marked as deleted, so the client has freed it
    have hdel := hw'.memory.deleted ho'
    rw [hf'] at hdel
    cases o <;> cases hdel
  | @tcpCall t t₁ c sys effects ret hact ho hf hk hout ho' hq hb =>
    obtain rfl := Obj.tcp.inj (Option.some.inj (ho'.symm.trans ht'))
    have hopen : TcpAct.noReconnect _ (.call c sys) := noReconnect_does ha ho hact
    have hkeeps := (hok j t ho).call_keepsWrite ((hw.memory.deleted ho).trans hf) hopen hout
      (fun b timeout hc ↦ ?_) (s.queued j .write + s.batched j .write)
    · refine .inr ⟨t, ho, ?_⟩
      rwa [hq, hb, Nat.add_right_comm]
    · by_contra hne
      have htries : t.triesWrite b timeout true = true := Bool.eq_true_of_not_eq_false hne
      refine hforeign ⟨j, some s.nextOp, b, sys.io⟩ ?_ rfl
      rw [hact, hc, kernelWrites, ho]
      dsimp only
      rw [if_pos htries]
      exact List.mem_singleton_self _
  | @tcpTimeout t t₁ d sys effects _ ho hactive hbatch hout ho' hstill =>
    obtain rfl := Obj.tcp.inj (Option.some.inj (ho'.symm.trans ht'))
    refine .inr ⟨t, ho, ?_⟩
    rw [hstill.queued, hstill.batched]
    exact hout.keepsWrite _
  | @tcpOffer t t₁ d sys completed effects hact ho hnone hout ho' hq hb hp hroom =>
    obtain rfl := Obj.tcp.inj (Option.some.inj (ho'.symm.trans ht'))
    have hkeeps := (hok j t ho).offer_keepsWrite hout fun hd hwriting ↦ ?_
    · refine .inr ⟨t, ho, ?_⟩
      rw [hq, hb]
      exact hkeeps
    · subst hd
      obtain ⟨reported, offers, hp⟩ := hp
      by_contra hconnected
      rw [Bool.not_eq_false] at hconnected
      refine hforeign ⟨j, t.onWrite, t.bufWrite, sys.io⟩ ?_ rfl
      rw [hact, kernelWrites, hp]
      dsimp only
      rw [ho]
      dsimp only
      rw [if_pos ⟨hroom, hwriting, hconnected⟩]
      exact List.mem_singleton_self _
  | @tcpDispatch t t₁ d sys client effects _ ho hbatch hout ho' hq hb =>
    obtain rfl := Obj.tcp.inj (Option.some.inj (ho'.symm.trans ht'))
    refine .inr ⟨t, ho, ?_⟩
    rw [hq, hb]
    exact (hok j t ho).dispatch_keepsWrite hbatch hout
  | asyncStart _ _ ho' | asyncSend _ _ ho' | asyncOffer _ _ _ _ ho' | asyncDispatch _ _ _ ho'
  | udpCall _ _ _ _ ho' | udpOffer _ _ _ _ ho' | udpDispatch _ _ _ ho' =>
    cases Option.some.inj (ho'.symm.trans ht')

/-! ## The record is exact

An invocation of `on_write` appends to what has been reported, and the final call of its operation
is the newest of the event that has sent something: the orders of the two lists agree because there
is at most one write of an event at a time. -/

def isWrite (s : IoLoop) (o : ℕ) : Bool := (s.ops o).any fun p ↦ p.kind = .write

/-- What an invocation reports as written for event `i`: the operation and the number of bytes. -/
def reports (s : IoLoop) (i : ℕ) (c : CallRecord) : Option (ℕ × ℕ) :=
  if c.event = i ∧ c.call.status = 0 ∧ s.isWrite c.call.op = true then
    some (c.call.op, c.call.bytes)
  else none

/-- What `on_write` has reported for event `i`, in order. -/
def reported (s : IoLoop) (i : ℕ) : List (ℕ × ℕ) := s.tcpCalls.filterMap (s.reports i)

/-- The calls of `write`, and the operations they are made for. -/
structure Written (s : IoLoop) (l : List KernelWrite) : Prop where
  made : ∀ w ∈ l, ∃ o b ret, w.op = some o ∧ s.ops o = some ⟨w.event, .write, b, ret⟩
  pending : ∀ i t, s.mem i = some (.tcp t) → s.freed i = false →
    t.Progress l i (s.queued i .write + s.batched i .write)
  final : ∀ c ∈ s.tcpCalls, ∀ b ret, s.ops c.call.op = some ⟨c.event, .write, b, ret⟩ →
    c.call.status = 0 →
      0 < c.call.bytes ∧ Final ⟨c.event, some c.call.op, b, .done c.call.bytes⟩ l
  order : ∀ i, s.reported i = (l.filterMap (share i)).filter fun p ↦ p.1 ∈ s.served

theorem init_written : init.Written [] where
  made := nofun
  pending := fun i t ht _ ↦ by cases ht
  final := nofun
  order := fun _ ↦ rfl

section Written

variable {l : List KernelWrite}

theorem Written.unsent_nextOp (h : s.Written l) (hl : s.Ledger) : Unsent s.nextOp l := by
  intro w hw hop
  obtain ⟨o, b, ret, ho, hops⟩ := h.made w hw
  obtain rfl := Option.some.inj (ho.symm.trans hop)
  rw [hl.ops_lt le_rfl] at hops
  cases hops

theorem Written.atOnce {i : ℕ} {t : Tcp} {b : IoBuf} {timeout : Option Timeval} {callback : Bool}
    {sys : Sys} (h : s.Written l) (hl : s.Ledger) (hok : s.TcpInv TcpView.Ok)
    (ho : s.mem i = some (.tcp t)) (htries : t.triesWrite b timeout callback = true)
    (hk : (TcpCall.write b timeout callback).kernel sys = true) :
    ((TcpCall.write b timeout callback).run t s.nextOp sys s.fresh).1.Progress
      (l ++ [⟨i, some s.nextOp, b, sys.io⟩]) i
      ((s.tcpCall i t (.write b timeout callback) sys).queued i .write + s.batched i .write) := by
  rw [Tcp.triesWrite, decide_eq_true_eq, not_or] at htries
  have hwriting : t.writing = false := Bool.eq_false_of_not_eq_true htries.2.2.2.2.2
  have hidle := (hok i t ho).write_idle hwriting
  have hzero : s.queued i .write + s.batched i .write = 0 := hidle.none_under_way
  have hnone : t.onWrite = none := hidle.onIo
  have hq : (s.tcpCall i t (.write b timeout callback) sys).queued i .write =
      s.queued i .write + submits
        ((TcpCall.write b timeout callback).run t s.nextOp sys s.fresh).2.1
        .write :=
    congrFun (queued_of_submit rfl) _
  have hnew := h.unsent_nextOp hl
  rw [hq]
  generalize hrun : (TcpCall.write b timeout callback).run t s.nextOp sys s.fresh = r
  have hout : Tcp.CallOutcome t s.nextOp sys s.fresh (.write b timeout callback) r.1 r.2.1 r.2.2 :=
    hrun ▸ Tcp.run_outcome _
  obtain ⟨t', effects, ret⟩ := r
  dsimp only at hout ⊢
  generalize hc : TcpCall.write b timeout callback = c at hout hk
  cases hout with
  | @writeQueued b' timeout' n _ _ _ _ hn =>
    -- the bytes are gone and the completion is in the queue
    obtain ⟨rfl, -, -⟩ := TcpCall.write.inj hc
    rintro o ho'
    obtain rfl := Option.some.inj ho'
    rw [hn]
    have hpos : 0 < n := by
      rw [TcpCall.kernel, hn, IoResult.sends, Bool.and_eq_true, decide_eq_true_eq] at hk
      exact hk.1
    exact (if_pos ⟨by rw [show submits [.submit .write] .write = 1 from rfl]; omega, rfl⟩).mpr
      ⟨hpos, hnew.newest rfl⟩
  | writeDeferred _ _ _ _ _ _ hio =>
    -- the call would have blocked, and nothing was written
    obtain ⟨rfl, -, -⟩ := TcpCall.write.inj hc
    rintro o ho'
    obtain rfl := Option.some.inj ho'
    rw [submits_assertEffect, if_neg (by omega)]
    refine hnew.append fun x hx _ ↦ ?_
    rw [List.mem_singleton.mp hx, KernelWrite.sent, hio]
  | writeFailed | refused => exact .of_none hnone
  | systemFailed hc' | noSocket hc' | openFailed hc' => subst hc; cases hc'
  | connectQueued | connectDeferred | listenDone | acceptFailed | acceptQueued | acceptDeferred
  | readFailed | readDeferred => cases hc

theorem Written.offered {i : ℕ} {t : Tcp} {sys : Sys} (h : s.Written l)
    (ho : s.mem i = some (.tcp t)) (hf : s.freed i = false)
    (hnone : s.queued i .write = 0 ∧ s.batched i .write = 0) (hwriting : t.writing = true)
    (hconnected : t.connected = true) (hk : t.reactorKernel .write sys = true) :
    (t.reactorCb .write sys s.fresh).1.Progress (l ++ [⟨i, t.onWrite, t.bufWrite, sys.io⟩]) i
      (s.queued i .write + (s.batched i .write +
        if (t.reactorCb .write sys s.fresh).2.1 then 1 else 0)) := by
  have hunsent : ∀ o, t.onWrite = some o → Unsent o l := by
    intro o ho'
    have hp := h.pending i t ho hf o ho'
    rwa [if_neg (by omega)] at hp
  rw [Tcp.reactorCb_write hwriting hconnected]
  -- a call that sends nothing
  have hblocked : ∀ r o, t.onWrite = some o → (∀ n, r ≠ .done n) →
      Unsent o (l ++ [⟨i, t.onWrite, t.bufWrite, r⟩]) := by
    intro r o ho' hr
    refine (hunsent o ho').append fun x hx _ ↦ ?_
    rw [List.mem_singleton.mp hx, KernelWrite.sent]
    split
    · next n hn => exact absurd hn (hr n)
    · rfl
  cases hio : sys.io with
  | done n =>
    intro o ho'
    have hpos : 0 < n := by
      rw [Tcp.reactorKernel, hio, IoResult.sends, Bool.and_eq_true, decide_eq_true_eq] at hk
      exact hk.1
    have ho' : t.onWrite = some o := ho'
    exact (if_pos ⟨by rw [if_pos rfl]; omega, rfl⟩).mpr
      ⟨hpos, by rw [ho']; exact (hunsent o ho').newest rfl⟩
  | wouldBlock =>
    intro o ho'
    rw [if_neg Bool.false_ne_true, if_neg (by omega)]
    exact hblocked _ o ho' (by simp)
  | failed e =>
    intro o ho'
    exact (if_neg fun hc ↦ e.2 hc.2).mpr (hblocked _ o ho' (by simp))

theorem Written.offerTcp {i : ℕ} {t : Tcp} {sys : Sys} {reported : List ℕ}
    {offers : List (ℕ × Dir)} (h : s.Written l) (hw : s.Wf)
    (hp : s.phase = .polling reported ((i, .write) :: offers)) (ho : s.mem i = some (.tcp t))
    (hf : s.freed i = false) (hwriting : t.writing = true) (hconnected : t.connected = true)
    (hk : t.reactorKernel .write sys = true) :
    (t.reactorCb .write sys s.fresh).1.Progress (l ++ [⟨i, t.onWrite, t.bufWrite, sys.io⟩]) i
      ((s.offerTcp i t .write sys).queued i .write +
        (s.offerTcp i t .write sys).batched i .write) := by
  have hout : Tcp.OfferOutcome t .write sys s.fresh _ _ _ := Tcp.offer_outcome hk
  have hqueue : (s.offerTcp i t .write sys).queue = s.queue := by
    show s.queue ++
      ((t.reactorCb .write sys s.fresh).2.2.filterMap IoEffect.submitted?).map _ = _
    rw [hout.submits_nil, List.map_nil, List.append_nil]
  have hbatched : (s.offerTcp i t .write sys).batched i =
      Function.update (s.batched i) .write (s.batched i .write +
        if (t.reactorCb .write sys s.fresh).2.1 then 1 else 0) := batched_of_completion rfl
  rw [congrFun (queued_congr hqueue) .write, congrFun hbatched .write, Function.update_self]
  exact h.offered ho hf (hw.traffic.offering hp).none_under_way hwriting hconnected hk

/-- The calls that are made are for operations of their own event that have not been called back. -/
theorem Steps.writes_pending (hstep : s.Steps a s') (hw : s.Wf) (hok : s.TcpInv TcpView.Ok)
    (hl : s.Ledger) (hlive : s.Offered TcpLive) {w : KernelWrite} (hmem : w ∈ s.kernelWrites a) :
    ∃ o b ret, w.op = some o ∧ s'.ops o = some ⟨w.event, .write, b, ret⟩ ∧ o ∉ s.served := by
  have hwriting := writing_kernelWrites s a
  generalize s.kernelWrites a = new at hmem hwriting
  cases hwriting with
  | none => cases hmem
  | @atOnce i t b timeout callback sys ho htries =>
    obtain rfl := List.mem_singleton.mp hmem
    cases hstep with
    | @tcp _ t' _ _ ho' =>
      refine ⟨s.nextOp, b, ((TcpCall.write b timeout callback).run t' s.nextOp sys s.fresh).2.2,
        rfl, Function.update_self .., fun hserved ↦ ?_⟩
      obtain ⟨c, hc, hco⟩ := List.mem_map.mp hserved
      obtain ⟨p, hp⟩ := hl.rightful hc
      have hnone := hp.op
      rw [hco, hl.ops_lt le_rfl] at hnone
      cases hnone
  | @offered i t sys reported offers hp ho hroom hwriting hconnected =>
    obtain rfl := List.mem_singleton.mp hmem
    have hdel : t.deleted = false := hlive reported _ hp (i, .write) List.mem_cons_self _ ho
    obtain ⟨o, hop⟩ := Option.ne_none_iff_exists'.mp
      ((hok i t ho).write.onIo_ne_none hwriting hconnected)
    have hpending := hl.stored (k := .write) ho ((hw.memory.deleted ho).symm.trans hdel) hop
    exact ⟨o, _, _, hop, hstep.ops_eq hw hl hpending.op, hpending.unserved⟩

theorem Steps.progress (hstep : s.Steps a s') (hw : s.Wf) (hok : s.TcpInv TcpView.Ok)
    (hl : s.Ledger) (hlive : s.Offered TcpLive) (ha : s.noReconnect a = true) (h : s.Written l)
    (j : ℕ) (t' : Tcp) (ht' : s'.mem j = some (.tcp t')) (hf' : s'.freed j = false) :
    t'.Progress (l ++ s.kernelWrites a) j (s'.queued j .write + s'.batched j .write) := by
  by_cases hj : ∀ w ∈ s.kernelWrites a, w.event ≠ j
  · -- no call was made for this event; those for other events are for other operations
    rcases (hstep.local hw j).keepsWrite hw (hstep.wf hw) hok ha ht' hf' hj with
      hnone | ⟨t, ht, hkeeps⟩
    · exact .of_none hnone
    · have hf := hstep.freed_eq hw hf'
      refine ((h.pending j t ht hf).append hj fun w hmem o ho hwo ↦ ?_).keeps hkeeps
      obtain ⟨o', b, ret, hop, hops, -⟩ := hstep.writes_pending hw hok hl hlive hmem
      obtain rfl := Option.some.inj (hop.symm.trans hwo)
      have hown := hstep.ops_eq hw hl (hl.stored (k := .write) ht hf ho).op
      exact hj w hmem (Op.mk.inj (Option.some.inj (hops.symm.trans hown))).1
  · push Not at hj
    obtain ⟨w, hmem, rfl⟩ := hj
    have hwriting := writing_kernelWrites s a
    generalize s.kernelWrites a = new at hmem hwriting ⊢
    cases hwriting with
    | none => cases hmem
    | @atOnce i t b timeout callback sys ho htries =>
      obtain rfl := List.mem_singleton.mp hmem
      cases hstep with
      | @tcp _ x _ _ hx hf hp hk =>
        obtain rfl := Obj.tcp.inj (Option.some.inj (ho.symm.trans hx))
        have hnew : (s.tcpCall i t (.write b timeout callback) sys).mem i = some (.tcp
            ((TcpCall.write b timeout callback).run t s.nextOp sys s.fresh).1) :=
          Function.update_self ..
        obtain rfl := Obj.tcp.inj (Option.some.inj (hnew.symm.trans ht'))
        exact h.atOnce hl hok ho htries hk
    | @offered i t sys reported offers hp ho hroom hwriting hconnected =>
      obtain rfl := List.mem_singleton.mp hmem
      cases hstep with
      | @offerTcp j x d _ _ _ hp' hx hk =>
        obtain ⟨rfl, rfl⟩ := Prod.mk.inj (offer_unique hp hp')
        obtain rfl := Obj.tcp.inj (Option.some.inj (ho.symm.trans hx))
        have hnew : (s.offerTcp i t .write sys).mem i =
            some (.tcp (t.reactorCb .write sys s.fresh).1) := Function.update_self ..
        obtain rfl := Obj.tcp.inj (Option.some.inj (hnew.symm.trans ht'))
        have hdel : t.deleted = false := hlive reported _ hp (i, .write) List.mem_cons_self _ ho
        exact h.offerTcp hw hp ho ((hw.memory.deleted ho).symm.trans hdel) hwriting hconnected hk
      | offerUdp hp' hx | offerAsync hp' hx =>
        obtain ⟨rfl, -⟩ := Prod.mk.inj (offer_unique hp hp')
        cases Option.some.inj (ho.symm.trans hx)
      | offerFull hp' hfull => exact absurd hroom hfull

theorem Ledger.reported_append {cs : List CallRecord} (hl : s.Ledger)
    (hcalls : s'.tcpCalls = s.tcpCalls ++ cs)
    (hops : ∀ o p, s.ops o = some p → s'.ops o = some p) (i : ℕ) :
    s'.reported i = s.reported i ++ cs.filterMap (s'.reports i) := by
  rw [reported, hcalls, List.filterMap_append, reported]
  congr 1
  refine List.filterMap_congr fun c hc ↦ ?_
  obtain ⟨p, hp⟩ := hl.rightful hc
  rw [reports, isWrite, hops _ _ hp.op, reports, isWrite, hp.op]

/-- The operations of calls that have been made stay in the record of the loop. -/
theorem Written.made_of_ops (h : s.Written l)
    (hops : ∀ o p, s.ops o = some p → s'.ops o = some p) :
    ∀ w ∈ l, ∃ o b ret, w.op = some o ∧ s'.ops o = some ⟨w.event, .write, b, ret⟩ := by
  intro w hw
  obtain ⟨o, b, ret, hop, hold⟩ := h.made w hw
  exact ⟨o, b, ret, hop, hops _ _ hold⟩

theorem Written.final_of_ops (h : s.Written l) (hl : s.Ledger)
    (hops : ∀ o p, s.ops o = some p → s'.ops o = some p) :
    ∀ c ∈ s.tcpCalls, ∀ b ret, s'.ops c.call.op = some ⟨c.event, .write, b, ret⟩ →
      c.call.status = 0 →
        0 < c.call.bytes ∧ Final ⟨c.event, some c.call.op, b, .done c.call.bytes⟩ l := by
  intro c hc b ret hop hstatus
  obtain ⟨p, hp⟩ := hl.rightful hc
  obtain rfl := Option.some.inj ((hops _ _ hp.op).symm.trans hop)
  exact h.final c hc b ret hp.op hstatus

theorem Written.op_of_share {j : ℕ} {p : ℕ × ℕ} (h : s.Written l)
    (hp : p ∈ l.filterMap (share j)) : ∃ b ret, s.ops p.1 = some ⟨j, .write, b, ret⟩ := by
  obtain ⟨w, hw, hshare⟩ := List.mem_filterMap.mp hp
  obtain ⟨rfl, -, hop, -⟩ := share_eq_some.mp hshare
  obtain ⟨o, b, ret, ho, hold⟩ := h.made w hw
  obtain rfl := Option.some.inj (ho.symm.trans hop)
  exact ⟨b, ret, hold⟩

theorem Written.quiet {new : List KernelWrite} (h : s.Written l) (hl : s.Ledger)
    (hops : ∀ o p, s.ops o = some p → s'.ops o = some p) (hcalls : s'.tcpCalls = s.tcpCalls)
    (hnew : ∀ w ∈ new, ∃ o b ret,
      w.op = some o ∧ s'.ops o = some ⟨w.event, .write, b, ret⟩ ∧ o ∉ s.served)
    (hpending : ∀ i t, s'.mem i = some (.tcp t) → s'.freed i = false →
      t.Progress (l ++ new) i (s'.queued i .write + s'.batched i .write)) :
    s'.Written (l ++ new) where
  made := by
    intro w hw
    rcases List.mem_append.mp hw with hw | hw
    · exact h.made_of_ops hops w hw
    · obtain ⟨o, b, ret, hop, hold, -⟩ := hnew w hw
      exact ⟨o, b, ret, hop, hold⟩
  pending := hpending
  final := by
    intro c hc b ret hop hstatus
    rw [hcalls] at hc
    obtain ⟨hpos, hfinal⟩ := h.final_of_ops hl hops c hc b ret hop hstatus
    refine ⟨hpos, hfinal.append fun x hx hxo ↦ ?_⟩
    obtain ⟨o, -, -, ho, -, hserved⟩ := hnew x hx
    obtain rfl := Option.some.inj (ho.symm.trans hxo)
    exact hserved (List.mem_map_of_mem hc)
  order := by
    intro i
    have hserved : s'.served = s.served := by rw [served, hcalls, served]
    have hnil : (new.filterMap (share i)).filter (fun p ↦ p.1 ∈ s.served) = [] := by
      refine List.filter_eq_nil_iff.mpr fun p hp ↦ ?_
      obtain ⟨w, hw, hshare⟩ := List.mem_filterMap.mp hp
      obtain ⟨-, -, hop, -⟩ := share_eq_some.mp hshare
      obtain ⟨o, -, -, ho, -, hserved⟩ := hnew w hw
      obtain rfl := Option.some.inj (ho.symm.trans hop)
      simpa using hserved
    rw [hl.reported_append (hcalls.trans (List.append_nil _).symm) hops, List.filterMap_nil,
      List.append_nil, h.order i, hserved, List.filterMap_append, List.filter_append, hnil,
      List.append_nil]

theorem filter_served {o : ℕ} {shares : List (ℕ × ℕ)} (hserved : s'.served = s.served ++ [o])
    (hne : ∀ p ∈ shares, p.1 ≠ o) :
    shares.filter (fun p ↦ p.1 ∈ s'.served) = shares.filter fun p ↦ p.1 ∈ s.served := by
  refine List.filter_congr fun p hp ↦ ?_
  rw [hserved, decide_eq_decide, List.mem_append, List.mem_singleton]
  exact or_iff_left (hne p hp)

theorem filter_served_last {o n : ℕ} {before : List (ℕ × ℕ)}
    (hserved : s'.served = s.served ++ [o]) (hbefore : ∀ p ∈ before, p.1 ≠ o)
    (hunserved : o ∉ s.served) :
    (before ++ [(o, n)]).filter (fun p ↦ p.1 ∈ s'.served) =
      (before ++ [(o, n)]).filter (fun p ↦ p.1 ∈ s.served) ++ [(o, n)] := by
  have hlast : o ∈ s'.served := by
    rw [hserved]
    exact List.mem_append_right _ (List.mem_singleton_self _)
  rw [List.filter_append, List.filter_append, filter_served hserved hbefore,
    List.filter_cons_of_pos (by simpa using hlast),
    List.filter_cons_of_neg (by simpa using hunserved), List.filter_nil, List.filter_nil,
    List.append_nil]

theorem Written.serve {i : ℕ} {t : Tcp} {c : Call} (h : s.Written l) (hl : s.Ledger)
    (hops : ∀ o p, s.ops o = some p → s'.ops o = some p)
    (ho : s.mem i = some (.tcp t)) (hf : s.freed i = false)
    (hcalls : s'.tcpCalls = s.tcpCalls ++ [⟨.tcp, i, s.freed i, c⟩])
    (hc : t.Answers (s.queued i .write + s.batched i .write) c)
    (hpending : ∀ i t, s'.mem i = some (.tcp t) → s'.freed i = false →
      t.Progress l i (s'.queued i .write + s'.batched i .write)) : s'.Written l := by
  have hserved : s'.served = s.served ++ [c.op] := by
    rw [served, hcalls, List.map_append, served, List.map_singleton]
  have hreported := hl.reported_append hcalls hops
  -- an invocation that reports nothing as written, for an operation without a share
  have hquiet : ∀ j, s'.reports j ⟨.tcp, i, s.freed i, c⟩ = none →
      (∀ p ∈ l.filterMap (share j), p.1 ≠ c.op) →
      s'.reported j = (l.filterMap (share j)).filter fun p ↦ p.1 ∈ s'.served := by
    intro j hnone hne
    rw [hreported, List.filterMap_cons_none hnone, List.filterMap_nil, List.append_nil, h.order j,
      filter_served hserved hne]
  have hmade := h.made_of_ops hops
  have hold := h.final_of_ops hl hops
  rcases hc with ⟨k, hk, hon⟩ | ⟨hon, hanswer⟩
  · -- not `on_write`
    have hop := hops _ _ (hl.stored ho hf hon).op
    have hnot : s'.isWrite c.op = false := by
      rw [isWrite, hop]
      simpa using hk
    refine ⟨hmade, hpending, fun r hr b ret hr' hstatus ↦ ?_, fun j ↦ ?_⟩
    · rw [hcalls, List.mem_append, List.mem_singleton] at hr
      rcases hr with hr | rfl
      · exact hold r hr b ret hr' hstatus
      · exact absurd (Op.mk.inj (Option.some.inj (hop.symm.trans hr'))).2.1 hk
    · refine hquiet j (if_neg fun hcond ↦ ?_) fun p hp heq ↦ ?_
      · exact absurd (hnot.symm.trans hcond.2.2) (by decide)
      · obtain ⟨b, ret, hpop⟩ := h.op_of_share hp
        rw [heq] at hpop
        exact hk (Op.mk.inj (Option.some.inj (hop.symm.trans (hops _ _ hpop)))).2.1
  · have hop := hops _ _ (hl.stored (k := .write) ho hf hon).op
    have htold := (h.pending i t ho hf).told hon hanswer
    have hwrite : s'.isWrite c.op = true := by rw [isWrite, hop]; rfl
    split at htold
    · next hstatus =>
      -- the completion of the write is passed on
      obtain ⟨hpos, hnewest⟩ := htold
      refine ⟨hmade, hpending, fun r hr b ret hr' hstatus' ↦ ?_, fun j ↦ ?_⟩
      · rw [hcalls, List.mem_append, List.mem_singleton] at hr
        rcases hr with hr | rfl
        · exact hold r hr b ret hr' hstatus'
        · obtain rfl := (Op.mk.inj (Option.some.inj (hop.symm.trans hr'))).2.2.1
          exact ⟨hpos, hnewest.final⟩
      · by_cases hj : i = j
        · subst hj
          obtain ⟨before, hshares, hbefore⟩ := hnewest.shares_eq rfl hpos
          have hunserved : c.op ∉ s.served := (hl.stored (k := .write) ho hf hon).unserved
          have hreports : s'.reports i ⟨.tcp, i, s.freed i, c⟩ = some (c.op, c.bytes) :=
            if_pos ⟨rfl, hstatus, hwrite⟩
          rw [hreported, List.filterMap_cons_some hreports, List.filterMap_nil, h.order i, hshares]
          exact (filter_served_last hserved hbefore hunserved).symm
        · refine hquiet j (if_neg fun hcond ↦ hj hcond.1) fun p hp heq ↦ ?_
          obtain ⟨b, ret, hpop⟩ := h.op_of_share hp
          rw [heq] at hpop
          exact hj (Op.mk.inj (Option.some.inj (hop.symm.trans (hops _ _ hpop)))).1
    · next hstatus =>
      -- an error, after calls that have sent nothing
      refine ⟨hmade, hpending, fun r hr b ret hr' hstatus' ↦ ?_, fun j ↦ ?_⟩
      · rw [hcalls, List.mem_append, List.mem_singleton] at hr
        rcases hr with hr | rfl
        · exact hold r hr b ret hr' hstatus'
        · exact absurd hstatus' hstatus
      · exact hquiet j (if_neg fun hcond ↦ hstatus hcond.2.1) fun p hp ↦ htold.fst_ne hp

/-- The record stays exact, for a client that does not open sockets on events in the error state. -/
theorem Steps.written (hstep : s.Steps a s') (hw : s.Wf) (hok : s.TcpInv TcpView.Ok)
    (hl : s.Ledger) (hlive : s.Offered TcpLive) (ha : s.noReconnect a = true) (h : s.Written l) :
    s'.Written (l ++ s.kernelWrites a) := by
  have hops : ∀ o p, s.ops o = some p → s'.ops o = some p := fun _ _ ↦ hstep.ops_eq hw hl
  have hpending := hstep.progress hw hok hl hlive ha h
  cases hstep.serves hw hok with
  | none hcalls =>
    exact h.quiet hl hops hcalls (fun w ↦ hstep.writes_pending hw hok hl hlive) hpending
  | one ho hf hquiet hcalls hc =>
    rw [hquiet, List.append_nil] at hpending ⊢
    exact h.serve hl hops ho hf hcalls hc hpending

end Written

/-! ## Immediate and deferred writes -/

/-- The loop with the record of the calls of `write`. -/
def writeStep : IoLoop × List KernelWrite → Action → Option (IoLoop × List KernelWrite) :=
  recording step kernelWrites

/-- The calls of `write` that were made for an operation. -/
def writesFor (o : ℕ) (l : List KernelWrite) : List KernelWrite := l.filter fun w ↦ w.op = some o

/-- The bytes of the given shares of operations, where `data o` is what the buffer of operation `o`
holds. -/
def bytesOf {β : Type*} (data : ℕ → List β) (shares : List (ℕ × ℕ)) : List β :=
  shares.flatMap fun p ↦ (data p.1).take p.2

/-- What the kernel has been given for event `i` by the writes whose callbacks have been invoked. -/
def completedShares (s : IoLoop) (l : List KernelWrite) (i : ℕ) : List (ℕ × ℕ) :=
  (l.filterMap (share i)).filter fun p ↦ p.1 ∈ s.served

/-- The writes that `on_write` has reported as successful: of the calls of `write` for such an
operation the last one has sent something, which is what was reported, from the buffer of the
operation. The bytes reported for an event are those that the kernel was given. -/
structure WritesExact (s : IoLoop) (l : List KernelWrite) : Prop where
  once : ∀ c ∈ s.tcpCalls, ∀ p, s.ops c.call.op = some p → p.kind = .write → p.ret = .success →
    c.call.status = 0 →
      ∃ before, writesFor c.call.op l =
          before ++ [⟨p.event, some c.call.op, p.buf, .done c.call.bytes⟩] ∧
        0 < c.call.bytes ∧ ∀ w ∈ before, w.sent = 0
  stream : ∀ {β : Type} (data : ℕ → List β) i,
    bytesOf data (s.reported i) = bytesOf data (s.completedShares l i)

/-- **Immediate and deferred writes are indistinguishable**, in every run of a client that does not
call connect or listen on an event in the error state. -/
theorem writesExact_of_noReconnect {x : IoLoop × List KernelWrite}
    (h : Reachable writeStep (fun x a ↦ x.1.noReconnect a = true) (init, []) x) :
    x.1.WritesExact x.2 := by
  obtain ⟨⟨-, -, hl⟩, -, -, hwritten⟩ : (x.1.Wf ∧ x.1.TcpInv TcpView.Ok ∧ x.1.Ledger) ∧
      x.1.TcpInv TcpView.Closed ∧ x.1.Offered TcpLive ∧ x.1.Written x.2 := by
    refine h.invariant (I := fun x ↦ (x.1.Wf ∧ x.1.TcpInv TcpView.Ok ∧ x.1.Ledger) ∧
      x.1.TcpInv TcpView.Closed ∧ x.1.Offered TcpLive ∧ x.1.Written x.2)
      ⟨⟨init_wf, init_tcpInv _, init_ledger⟩, init_tcpInv _, nofun, init_written⟩ ?_
    rintro x a y ⟨⟨hw, hok, hl⟩, hclosed, hlive, hwritten⟩ ha hstep
    obtain ⟨hstep, hy⟩ := recording_eq_some hstep
    have hsteps := step_eq_some hstep
    refine ⟨⟨hsteps.wf hw, tcpOk_step hok hw hstep ha, hsteps.ledger hw hok ha hl⟩, ?_,
      hsteps.offered_tcpLive hw hclosed hlive, ?_⟩
    · exact hclosed.step (A := fun _ _ ↦ True) hw hstep
        (fun v hv ↦ by cases hv <;> exact nofun) (fun _ _ _ htcp hv _ ↦ htcp.closed hv)
        fun _ _ _ _ _ ↦ trivial
    · rw [hy]
      exact hsteps.written hw hok hl hlive ha hwritten
  refine ⟨?_, fun data i ↦ by rw [hwritten.order i, completedShares]⟩
  rintro c hc ⟨event, kind, buf, ret⟩ hop rfl - hstatus
  obtain ⟨p, hp⟩ := hl.rightful hc
  obtain rfl := Option.some.inj (hp.op.symm.trans hop)
  have hevent : c.event = event := hp.event
  obtain ⟨hpos, hfinal⟩ := hwritten.final c hc buf ret (by rw [hevent]; exact hop) hstatus
  obtain ⟨before, hbefore, hsent⟩ := hfinal.filter_eq
  exact ⟨before, by rw [← hevent]; exact hbefore, hpos, hsent⟩

/-- On a new connection a first write is done at once. The second one, which its callback starts,
finds no room twice and is done when the socket becomes writable again. -/
def writeNowAndLater : List Action :=
  [.new .tcp, .tcp 0 (.connect true none true) { Sys.ok 0 with connect := .done }, .runEnter,
    .processEndgame, .takeQueued, .dispatch (.ok 0),
    .tcp 0 (.write ⟨4, 8⟩ none true) (.ok 3), .callbackReturn, .nextRound, .processEndgame,
    .takeQueued, .dispatch (.ok 0),
    .tcp 0 (.write ⟨5, 16⟩ none true) { Sys.ok 0 with io := .wouldBlock }, .callbackReturn,
    .nextRound, .processEndgame, .epollWait, .report 0 .writable,
    .offer { Sys.ok 0 with io := .wouldBlock }, .pollReturn, .nextRound, .processEndgame,
    .epollWait, .report 0 .writable, .offer (.ok 5), .pollReturn, .dispatch (.ok 0)]

theorem writesExact_of_noReconnect_nowAndLater :
    ∃ x, exec writeStep (fun x a ↦ x.1.noReconnect a = true) (init, []) writeNowAndLater = some x ∧
      x.1.tcpCalls.map CallRecord.call =
        [⟨0, 0, 0, 0, none⟩, ⟨1, 0, 8, 3, none⟩, ⟨2, 0, 16, 5, none⟩] ∧
      x.2 = [⟨0, some 1, ⟨4, 8⟩, .done 3⟩, ⟨0, some 2, ⟨5, 16⟩, .wouldBlock⟩,
        ⟨0, some 2, ⟨5, 16⟩, .wouldBlock⟩, ⟨0, some 2, ⟨5, 16⟩, .done 5⟩] ∧
      x.1.WritesExact x.2 := by
  have hrun : ((exec writeStep (fun x a ↦ x.1.noReconnect a = true) (init, [])
      writeNowAndLater).map fun x ↦ (x.1.tcpCalls.map CallRecord.call, x.2)) =
      some ([⟨0, 0, 0, 0, none⟩, ⟨1, 0, 8, 3, none⟩, ⟨2, 0, 16, 5, none⟩],
        [⟨0, some 1, ⟨4, 8⟩, .done 3⟩, ⟨0, some 2, ⟨5, 16⟩, .wouldBlock⟩,
          ⟨0, some 2, ⟨5, 16⟩, .wouldBlock⟩, ⟨0, some 2, ⟨5, 16⟩, .done 5⟩]) := by
    decide +kernel
  obtain ⟨x, hx, hfields⟩ := Option.map_eq_some_iff.mp hrun
  obtain ⟨hcalls, hwrites⟩ := Prod.mk.inj hfields
  exact ⟨x, hx, hcalls, hwrites, writesExact_of_noReconnect (Reachable.of_exec hx)⟩

end IoLoop

end Nanoev
