import Nanoev.Io.Writes

/-!
# The bytes that TCP reads receive

A read of a TCP event is not tried when it is started: `reactor_cb` calls `read` when the socket has
become readable, and the completion goes into the batch that is being collected. The calls of `read`
are recorded here, beside the state of the loop, with the operation each of them is made for.

What has been received for an event and not been reported yet is at most one completion, which is on
its way from `reactor_cb` to `on_read`; `inFlight` reads it off the state of the loop. A step of the
loop moves data in one direction only, so

```text
received = reported ++ in flight
```

holds for every event that the client has not freed, as an equation between lists: nothing that was
received is lost, reported twice, or reported out of order. The end of the stream is a piece of
length 0 and needs no case of its own. When an event is freed its completion may be dropped, and
what was reported is still a prefix of what was received.
-/

namespace Nanoev

open Transition

/-- A call of `read` by the `reactor_cb` of an event, with the operation that it is made for. -/
structure KernelRead where
  event : ℕ
  op : Option ℕ
  buf : IoBuf
  result : IoResult
deriving DecidableEq, Repr

/-- What a read has got: the operation, the address of the buffer and the number of bytes in it. -/
structure Piece where
  op : ℕ
  buf : ℕ
  bytes : ℕ
deriving DecidableEq, Repr

/-- What a call has received for event `i`, if it has succeeded. -/
def KernelRead.piece (i : ℕ) (r : KernelRead) : Option Piece :=
  match r.result with
  | .done n => if r.event = i then r.op.map fun o ↦ ⟨o, r.buf.buf, n⟩ else none
  | _ => none

theorem KernelRead.piece_of_ne {i : ℕ} {r : KernelRead} (h : r.event ≠ i) : r.piece i = none := by
  unfold piece
  split
  · exact if_neg h
  · rfl

/-! ## The read direction of a TCP event -/

namespace Tcp

/-- The piece of a completed read, when `n` completions of the direction are on the way. -/
def arriving (t : Tcp) (n : ℕ) : List Piece :=
  if 0 < n ∧ t.ctxRead.status = 0 then
    (t.onRead.map fun o ↦ ⟨o, t.readSlot.buf.buf, t.ctxRead.bytes⟩).toList
  else []

variable {t t' : Tcp} {n n' : ℕ}

theorem arriving_of_zero (h : n = 0) : t.arriving n = [] := if_neg fun hc ↦ by omega

theorem arriving_of_none (h : t.onRead = none) : t.arriving n = [] := by
  unfold arriving
  rw [h]
  exact ite_self _

theorem arriving_congr (hop : t'.onRead = t.onRead) (hslot : t'.readSlot = t.readSlot)
    (hctx : t'.ctxRead = t.ctxRead) (hn : n' = n) : t'.arriving n' = t.arriving n := by
  rw [arriving, arriving, hop, hslot, hctx, hn]

theorem length_arriving_le (t : Tcp) (n : ℕ) : (t.arriving n).length ≤ 1 := by
  unfold arriving
  split
  · cases t.onRead <;> simp
  · exact Nat.zero_le 1

theorem reactorCb_read {sys : Sys} {fresh : Fresh} (hreading : t.reading = true)
    (hconnected : t.connected = true) :
    t.reactorCb .read sys fresh = match sys.io with
      | .done n => ({ t with ctxRead := ⟨0, n⟩ }, true, [])
      | .wouldBlock => (t, false, [])
      | .failed e => ({ t with ctxRead := ⟨e.1, 0⟩ }, true, []) :=
  (if_neg (by rw [hreading]; decide)).trans (if_pos hconnected)

theorem arriving_reactorCb {sys : Sys} {fresh : Fresh} {o : ℕ} (hreading : t.reading = true)
    (hconnected : t.connected = true) (hop : t.onRead = some o) (i : ℕ) :
    (t.reactorCb .read sys fresh).1.arriving
        (if (t.reactorCb .read sys fresh).2.1 then 1 else 0) =
      [KernelRead.mk i (some o) t.readSlot.buf sys.io].filterMap (KernelRead.piece i) := by
  rw [reactorCb_read hreading hconnected]
  cases hio : sys.io with
  | done n =>
    have hpiece : KernelRead.piece i ⟨i, some o, t.readSlot.buf, .done n⟩ =
        some ⟨o, t.readSlot.buf.buf, n⟩ := if_pos rfl
    rw [List.filterMap_cons_some hpiece, List.filterMap_nil, ← Option.toList_some,
      ← Option.map_some (f := fun o ↦ (⟨o, t.readSlot.buf.buf, n⟩ : Piece)), ← hop]
    exact if_pos ⟨Nat.one_pos, rfl⟩
  | wouldBlock => rfl
  | failed e => exact if_neg fun hc ↦ e.2 hc.2

end Tcp

namespace TcpView.Ok

open Tcp

variable {v : TcpView} {t' : Tcp} {sys : Sys} {fresh : Fresh} {effects : List IoEffect} {d : Dir}

theorem onRead_eq_none (h : v.Ok) (hconnected : v.t.connected = false) : v.t.onRead = none :=
  h.read.onIo_eq_none hconnected

theorem call_arriving {op : ℕ} {c : TcpCall} {ret : RetCode} (h : v.Ok)
    (hc : CallOutcome v.t op sys fresh c t' effects ret) :
    t'.arriving (v.queued .read + submits effects .read + v.batched .read) =
      v.t.arriving (v.queued .read + v.batched .read) := by
  have hidle : v.t.reading = false → v.queued .read + v.batched .read = 0 :=
    fun hr ↦ (h.read_idle hr).none_under_way
  have hlistener : v.t.listening = true → v.t.onRead = none :=
    fun hl ↦ h.onRead_eq_none (h.not_connected hl)
  cases hc with
  | readDeferred _ _ _ hreading | readFailed _ _ hreading =>
    have hzero := hidle hreading
    rw [arriving_of_zero hzero]
    exact arriving_of_zero (by rw [show submits [] .read = 0 from rfl]; omega)
  | acceptFailed hl | acceptQueued hl | acceptDeferred hl =>
    rw [arriving_of_none (hlistener hl)]
    exact arriving_of_none (hlistener hl)
  | @openFailed _ _ _ _ _ _ _ _ a | @connectDeferred _ _ _ _ _ a =>
    have hnone : submits (.opened fresh.fd :: assertEffect a) .read = 0 := submits_assertEffect a _
    exact arriving_congr rfl rfl rfl (by rw [hnone, Nat.add_zero])
  | writeFailed | writeDeferred =>
    exact arriving_congr rfl rfl rfl (by rw [submits_assertEffect, Nat.add_zero])
  | _ => exact arriving_congr rfl rfl rfl rfl

theorem timeout_arriving (h : v.Ok) (hactive : (v.t.timeout d).active = true)
    (hbatch : ∀ d, v.batched d = 0) (ho : TimeoutOutcome v.t d sys t' effects) :
    t'.arriving (v.queued .read + v.batched .read) =
      v.t.arriving (v.queued .read + v.batched .read) := by
  cases ho with
  | readExpired hd =>
    subst hd
    have hq : v.queued .read = 0 := (h.read.timeout hactive).2.1
    have hzero : v.queued .read + v.batched .read = 0 := by rw [hq, hbatch]
    rw [arriving_of_zero hzero, arriving_of_zero hzero]
  | _ => exact arriving_congr rfl rfl rfl rfl

theorem offer_arriving {completed : Bool} (h : v.Ok)
    (ho : OfferOutcome v.t d sys fresh t' completed effects)
    (hnot : d = .read → v.t.reading = true → v.t.connected = false) :
    t'.arriving (v.queued .read +
        Function.update v.batched d (v.batched d + if completed then 1 else 0) .read) =
      v.t.arriving (v.queued .read + v.batched .read) := by
  cases ho with
  | nothing => rw [if_neg Bool.false_ne_true, Nat.add_zero, Function.update_eq_self]
  | read hd hreading hconnected =>
    exact absurd (hconnected.symm.trans (hnot hd hreading)) (by decide)
  | accepted hd _ hconnected | acceptFailed hd _ hconnected =>
    rw [arriving_of_none (h.onRead_eq_none hconnected)]
    exact arriving_of_none (h.onRead_eq_none hconnected)
  | write hd | connect hd =>
    subst hd
    rw [Function.update_of_ne (by decide)]
    exact arriving_congr rfl rfl rfl rfl

end TcpView.Ok

namespace Tcp

variable {t t' : Tcp} {d : Dir} {sys : Sys} {fresh : Fresh} {effects : List IoEffect}

/-- What `tcp_proactor_callback` does to the read direction: it takes out the callback of the read
and invokes it with what is in the context, or it leaves the direction alone. -/
inductive ReadDispatch (t t' : Tcp) (d : Dir) (calls : List Call) : Prop
  | read {op : ℕ} (hd : d = .read) (hop : t.onRead = some op) (hnone : t'.onRead = none)
      (hcalls : calls = if t.deleted then [] else
        [⟨op, t.ctxRead.status, t.readSlot.buf.buf, t.ctxRead.bytes, none⟩])
  | other (hkeep : t.onRead = none ∧ t'.onRead = none ∨
        d = .write ∧ t'.onRead = t.onRead ∧ t'.readSlot = t.readSlot ∧ t'.ctxRead = t.ctxRead)
      (hcalls : ∀ c ∈ calls, t.deleted = false ∧ ∃ k, k ≠ .read ∧ t.on k = some c.op)

theorem mem_call_callUnless {deleted : Bool} {c c' : Call}
    (h : c' ∈ (callUnless deleted c).filterMap IoEffect.call?) : deleted = false ∧ c' = c := by
  cases deleted with
  | true => cases h
  | false => exact ⟨rfl, List.mem_singleton.mp h⟩

theorem call_closeAccepted (slot : Option ℕ) :
    (closeAccepted slot).filterMap IoEffect.call? = [] := by
  cases slot <;> rfl

end Tcp

namespace TcpView.Ok

open Tcp

variable {v : TcpView} {t' : Tcp} {sys : Sys} {fresh : Fresh} {effects : List IoEffect} {d : Dir}

theorem dispatch_read {client : Option Tcp} (h : v.Ok) (hbatch : 0 < v.batched d)
    (ho : DispatchOutcome v.t d sys fresh t' client effects) :
    ReadDispatch v.t t' d (effects.filterMap IoEffect.call?) := by
  obtain ⟨hflag, -⟩ := h.completed hbatch
  have hidle : v.t.connected = false → v.t.onRead = none := h.onRead_eq_none
  cases ho with
  | @readDone _ _ _ _ op _ hd _ _ hop =>
    refine .read hd hop rfl ?_
    cases v.t.deleted <;> rfl
  | writeDone _ hd _ _ hop =>
    refine .other (.inr ⟨hd, rfl, rfl, rfl⟩) fun c hc ↦ ?_
    obtain ⟨hlive, rfl⟩ := mem_call_callUnless hc
    exact ⟨hlive, .write, by decide, hop⟩
  | @acceptDone _ _ _ _ op _ hconnected _ _ hop hdeleted =>
    obtain ⟨status, new, hcall⟩ : ∃ status new, (acceptClient v.t.readSlot.allocUserdata
        v.t.readSlot.socketAccept (v.t.ctx d).status op sys fresh).2.filterMap IoEffect.call? =
          [⟨op, status, 0, 0, new⟩] := (acceptClient_outcome ..).call_eq
    refine .other (.inl ⟨hidle hconnected, hidle hconnected⟩) fun c hc ↦ ?_
    rw [hcall] at hc
    obtain rfl := List.mem_singleton.mp hc
    exact ⟨hdeleted, .accept, by decide, hop⟩
  | acceptDropped _ hconnected | acceptStale _ hconnected =>
    refine .other (.inl ⟨hidle hconnected, hidle hconnected⟩) ?_
    rw [call_closeAccepted]
    exact fun c hc ↦ absurd hc List.not_mem_nil
  | connectDone _ hconnected _ _ hop hdeleted =>
    refine .other (.inl ⟨hidle hconnected, hidle hconnected⟩) fun c hc ↦ ?_
    obtain rfl := List.mem_singleton.mp hc
    exact ⟨hdeleted, .connect, by decide, hop⟩
  | connectFailed _ hconnected _ _ hop =>
    refine .other (.inl ⟨hidle hconnected, hidle hconnected⟩) fun c hc ↦ ?_
    obtain ⟨hlive, rfl⟩ := mem_call_callUnless hc
    exact ⟨hlive, .connect, by decide, hop⟩
  | connectStale _ hconnected =>
    exact .other (.inl ⟨hidle hconnected, hidle hconnected⟩) fun c hc ↦ absurd hc List.not_mem_nil
  | readStale _ hd hconnected hlost =>
    subst hd
    exact (h.read.not_stale hflag hconnected hlost).elim
  | writeStale _ hd =>
    exact .other (.inr ⟨hd, rfl, rfl, rfl⟩) fun c hc ↦ absurd hc List.not_mem_nil

end TcpView.Ok

theorem Tcp.TimeoutOutcome.status_ne {t t' : Tcp} {d : Dir} {sys : Sys} {effects : List IoEffect}
    (h : TimeoutOutcome t d sys t' effects) {c : Call}
    (hc : c ∈ effects.filterMap IoEffect.call?) : c.status ≠ 0 := by
  have hclosing : ∀ k, (closing k).filterMap IoEffect.call? = [] := fun k ↦ by cases k <;> rfl
  cases h with
  | readIgnored | writeIgnored => cases hc
  | _ =>
    rw [List.filterMap_append, hclosing, List.nil_append] at hc
    obtain ⟨-, rfl⟩ := mem_call_callUnless hc
    exact Errno.timedout.2

namespace IoLoop

/-! ## The calls of `read` and what is reported -/

/-- The calls of `read` that an action leads to. -/
def kernelReads (s : IoLoop) : Action → List KernelRead
  | .offer sys =>
    match s.phase with
    | .polling _ ((i, .read) :: _) =>
      match s.mem i with
      | some (.tcp t) =>
        if s.batch.length < maxEvents ∧ t.reading = true ∧ t.connected = true then
          [⟨i, t.onRead, t.readSlot.buf, sys.io⟩]
        else []
      | _ => []
    | _ => []
  | _ => []

/-- What event `i` has received, by the given calls of `read`. -/
def receivedBy (l : List KernelRead) (i : ℕ) : List Piece := l.filterMap (KernelRead.piece i)

/-- The piece of event `i` that is on its way from `reactor_cb` to `on_read`. -/
def inFlight (s : IoLoop) (i : ℕ) : List Piece :=
  match s.mem i with
  | some (.tcp t) => t.arriving (s.queued i .read + s.batched i .read)
  | _ => []

def isRead (s : IoLoop) (o : ℕ) : Bool := (s.ops o).any fun p ↦ p.kind = .read

/-- What an invocation reports as read for event `i`. -/
def readReport (s : IoLoop) (i : ℕ) (c : CallRecord) : Option Piece :=
  if c.event = i ∧ c.call.status = 0 ∧ s.isRead c.call.op = true then
    some ⟨c.call.op, c.call.buf, c.call.bytes⟩
  else none

/-- What `on_read` has reported for event `i`, in order. -/
def reportedReads (s : IoLoop) (i : ℕ) : List Piece := s.tcpCalls.filterMap (s.readReport i)

variable {s s' : IoLoop} {a : Action} {i j : ℕ} {t t' : Tcp}

theorem inFlight_tcp (ho : s.mem i = some (.tcp t)) :
    s.inFlight i = t.arriving (s.queued i .read + s.batched i .read) := by
  rw [inFlight, ho]

theorem inFlight_none (ho : s.mem i = none) : s.inFlight i = [] := by
  rw [inFlight, ho]

theorem inFlight_udp {u : Udp} (ho : s.mem i = some (.udp u)) : s.inFlight i = [] := by
  rw [inFlight, ho]

theorem inFlight_async {x : Async} (ho : s.mem i = some (.async x)) : s.inFlight i = [] := by
  rw [inFlight, ho]

theorem length_inFlight_le (s : IoLoop) (i : ℕ) : (s.inFlight i).length ≤ 1 := by
  unfold inFlight
  split
  · exact Tcp.length_arriving_le ..
  · exact Nat.zero_le 1

theorem inFlight_congr (hmem : s'.mem i = s.mem i)
    (hn : s'.queued i .read + s'.batched i .read = s.queued i .read + s.batched i .read) :
    s'.inFlight i = s.inFlight i := by
  rw [inFlight, inFlight, hmem, hn]

theorem Ledger.reportedReads_append {cs : List CallRecord} (hl : s.Ledger)
    (hcalls : s'.tcpCalls = s.tcpCalls ++ cs)
    (hops : ∀ o p, s.ops o = some p → s'.ops o = some p) (i : ℕ) :
    s'.reportedReads i = s.reportedReads i ++ cs.filterMap (s'.readReport i) := by
  rw [reportedReads, hcalls, List.filterMap_append, reportedReads]
  congr 1
  refine List.filterMap_congr fun c hc ↦ ?_
  obtain ⟨p, hp⟩ := hl.rightful hc
  rw [readReport, isRead, hops _ _ hp.op, readReport, isRead, hp.op]

theorem mem_kernelReads {r : KernelRead} (h : r ∈ s.kernelReads a) :
    ∃ i t sys reported offers, a = .offer sys ∧
      s.phase = .polling reported ((i, .read) :: offers) ∧ s.mem i = some (.tcp t) ∧
      s.batch.length < maxEvents ∧ t.reading = true ∧ t.connected = true ∧
      r = ⟨i, t.onRead, t.readSlot.buf, sys.io⟩ := by
  unfold kernelReads at h
  split at h
  · next sys =>
    split at h
    · next reported i offers hp =>
      split at h
      · next t ho =>
        split at h
        · next hc =>
          exact ⟨i, t, sys, reported, offers, rfl, hp, ho, hc.1, hc.2.1, hc.2.2,
            List.mem_singleton.mp h⟩
        · cases h
      · cases h
    · cases h
  · cases h

/-! ## A step moves data in one direction -/

/-- A step that leaves event `j` alone, or does to it what neither receives nor reports data. -/
theorem Local.inFlight_eq (h : s.Local a s' j) (hw' : s'.Wf) (hok : s.TcpInv TcpView.Ok)
    (hf' : s'.freed j = false)
    (hstay : (∃ sys, a = .offer sys ∨ a = .dispatch sys) → ∀ t, s.mem j = some (.tcp t) →
      s'.mem j = s.mem j ∧
        s'.queued j .read + s'.batched j .read = s.queued j .read + s.batched j .read) :
    s'.inFlight j = s.inFlight j := by
  cases h with
  | untouched hmem hstill => exact inFlight_congr hmem (by rw [hstill.queued, hstill.batched])
  | @created o hnone ho' hnew hq hb =>
    rw [inFlight_none hnone]
    cases o with
    | tcp t => rw [inFlight_tcp ho']; exact Tcp.arriving_of_zero (by simp only [hq, hb])
    | udp u => exact inFlight_udp ho'
    | async x => exact inFlight_async ho'
  | released hnone hidle =>
    rw [inFlight_none hnone]
    cases ho : s.mem j with
    | none => exact (inFlight_none ho).symm
    | some o =>
      cases o with
      | tcp t =>
        have hreading : t.reading = false := (Bool.or_eq_false_iff.mp (hidle _ ho)).1
        rw [inFlight_tcp ho]
        exact (Tcp.arriving_of_zero ((hok j t ho).read_idle hreading).none_under_way).symm
      | udp u => exact (inFlight_udp ho).symm
      | async x => exact (inFlight_async ho).symm
  | polled _ hmem hbatch hmoved =>
    exact inFlight_congr hmem (by rw [hmoved, hbatch, Nat.add_zero])
  | @linked o n _ ho ho' hstill =>
    cases o with
    | tcp t =>
      rw [inFlight_tcp ho, inFlight_tcp ho', hstill.queued, hstill.batched]
      exact Tcp.arriving_congr rfl rfl rfl rfl
    | udp u => rw [inFlight_udp ho, inFlight_udp ho']
    | async x => rw [inFlight_async ho, inFlight_async ho']
  | @freed o n _ ho hf hdefers ho' =>
    -- the event is marked as deleted, so the client has freed it
    have hdel := hw'.memory.deleted ho'
    rw [hf'] at hdel
    cases o <;> cases hdel
  | @tcpCall t t₁ c sys effects ret hact ho hf hk hout ho' hq hb =>
    rw [inFlight_tcp ho, inFlight_tcp ho', hq, hb]
    exact (hok j t ho).call_arriving hout
  | @tcpTimeout t t₁ d sys effects _ ho hactive hbatch hout ho' hstill =>
    rw [inFlight_tcp ho, inFlight_tcp ho', hstill.queued, hstill.batched]
    exact (hok j t ho).timeout_arriving hactive hbatch hout
  | @tcpOffer t _ _ sys _ _ ha ho =>
    obtain ⟨hmem, hn⟩ := hstay ⟨sys, .inl ha⟩ t ho
    exact inFlight_congr hmem hn
  | @tcpDispatch t _ _ sys _ _ ha ho =>
    obtain ⟨hmem, hn⟩ := hstay ⟨sys, .inr ha⟩ t ho
    exact inFlight_congr hmem hn
  | udpCall _ ho _ _ ho' | udpOffer _ _ ho _ ho' | udpDispatch _ ho _ ho' =>
    rw [inFlight_udp ho, inFlight_udp ho']
  | asyncStart ho _ ho' | asyncSend ho _ ho' | asyncOffer _ ho _ _ ho'
  | asyncDispatch _ ho _ ho' => rw [inFlight_async ho, inFlight_async ho']

/-- What one step does to the data of event `j`. -/
structure Conserves (s : IoLoop) (a : Action) (s' : IoLoop) (j : ℕ) (new : List Piece) : Prop where
  reported : s'.reportedReads j = s.reportedReads j ++ new
  live : s'.freed j = false →
    s.inFlight j ++ receivedBy (s.kernelReads a) j = new ++ s'.inFlight j
  freed : s'.freed j = true → new = [] ∧ receivedBy (s.kernelReads a) j = []

theorem Conserves.quiet (hreported : s'.reportedReads j = s.reportedReads j)
    (hreads : receivedBy (s.kernelReads a) j = [])
    (hkeep : s'.freed j = false → s'.inFlight j = s.inFlight j) : s.Conserves a s' j [] where
  reported := by rw [hreported, List.append_nil]
  live := fun hf ↦ by rw [hreads, hkeep hf, List.append_nil, List.nil_append]
  freed := fun _ ↦ ⟨rfl, hreads⟩

theorem Ledger.reportedReads_congr (hl : s.Ledger) (hcalls : s'.tcpCalls = s.tcpCalls)
    (hops : ∀ o p, s.ops o = some p → s'.ops o = some p) (j : ℕ) :
    s'.reportedReads j = s.reportedReads j := by
  rw [hl.reportedReads_append (hcalls.trans (List.append_nil _).symm) hops, List.filterMap_nil,
    List.append_nil]

theorem Ledger.reportedReads_other {cs : List Call} (hl : s.Ledger)
    (hcalls : s'.calls = s.calls ++ cs.map fun c ↦ ⟨.tcp, i, s.freed i, c⟩)
    (hops : ∀ o p, s.ops o = some p → s'.ops o = some p)
    (hother : ∀ c ∈ cs, c.status ≠ 0 ∨ s'.isRead c.op = false) (j : ℕ) :
    s'.reportedReads j = s.reportedReads j := by
  rw [hl.reportedReads_append (tcpCalls_of_tcp hcalls) hops]
  refine (congrArg (_ ++ ·) (List.filterMap_eq_nil_iff.mpr ?_)).trans (List.append_nil _)
  rintro r hr
  obtain ⟨c, hc, rfl⟩ := List.mem_map.mp hr
  refine if_neg fun hcond ↦ ?_
  rcases hother c hc with hstatus | hread
  · exact hstatus hcond.2.1
  · exact absurd (hread.symm.trans hcond.2.2) (by decide)

theorem receivedBy_of_ne {l : List KernelRead} (h : ∀ r ∈ l, r.event ≠ j) : receivedBy l j = [] :=
  List.filterMap_eq_nil_iff.mpr fun r hr ↦ KernelRead.piece_of_ne (h r hr)

theorem receivedBy_offer {e : ℕ × Dir} {sys : Sys} {reported : List ℕ} {offers : List (ℕ × Dir)}
    (hp : s.phase = .polling reported (e :: offers))
    (hnot : e.1 = j → ∀ t, s.mem j = some (.tcp t) → s.batch.length < maxEvents → e.2 = .read →
      t.reading = true → t.connected = false) :
    receivedBy (s.kernelReads (.offer sys)) j = [] := by
  refine receivedBy_of_ne fun r hr ↦ ?_
  obtain ⟨i, t, sys', reported', offers', -, hp', ho, hroom, hreading, hconnected, rfl⟩ :=
    mem_kernelReads hr
  obtain rfl := offer_unique hp hp'
  rintro rfl
  exact absurd (hconnected.symm.trans (hnot rfl t ho hroom rfl hreading)) (by decide)

theorem conserves_read {sys : Sys} {reported : List ℕ} {offers : List (ℕ × Dir)}
    (hw : s.Wf) (hok : s.TcpInv TcpView.Ok) (hl : s.Ledger) (hlive : s.Offered TcpLive)
    (hp : s.phase = .polling reported ((i, .read) :: offers)) (ho : s.mem i = some (.tcp t))
    (hroom : s.batch.length < maxEvents) (hreading : t.reading = true)
    (hconnected : t.connected = true) :
    s.Conserves (.offer sys) (s.offerTcp i t .read sys) i [] := by
  obtain ⟨hq, hb⟩ := (hw.traffic.offering hp).none_under_way
  obtain ⟨o, hop⟩ := Option.ne_none_iff_exists'.mp
    ((hok i t ho).read.onIo_ne_none hreading hconnected)
  have hop : t.onRead = some o := hop
  have hdel : t.deleted = false := hlive reported _ hp (i, .read) List.mem_cons_self _ ho
  have hreads : s.kernelReads (.offer sys) = [⟨i, some o, t.readSlot.buf, sys.io⟩] := by
    rw [kernelReads, hp]
    dsimp only
    rw [ho, ← hop]
    exact if_pos ⟨hroom, hreading, hconnected⟩
  have hmem : (s.offerTcp i t .read sys).mem i =
      some (.tcp (t.reactorCb .read sys s.fresh).1) := Function.update_self ..
  have hbatched : (s.offerTcp i t .read sys).batched i = Function.update (s.batched i) .read
      (s.batched i .read + if (t.reactorCb .read sys s.fresh).2.1 then 1 else 0) :=
    batched_of_completion rfl
  have heffects : (t.reactorCb .read sys s.fresh).2.2 = [] := by
    rw [Tcp.reactorCb_read hreading hconnected]
    split <;> rfl
  have hqueue : (s.offerTcp i t .read sys).queue = s.queue := by
    show s.queue ++ ((t.reactorCb .read sys s.fresh).2.2.filterMap IoEffect.submitted?).map _ = _
    rw [heffects]
    exact List.append_nil _
  have hcalls : (s.offerTcp i t .read sys).calls = s.calls := by
    show s.calls ++ ((t.reactorCb .read sys s.fresh).2.2.filterMap IoEffect.call?).map _ = _
    rw [heffects]
    exact List.append_nil _
  refine ⟨?_, fun _ ↦ ?_, fun hf ↦ ?_⟩
  · rw [List.append_nil]
    exact hl.reportedReads_congr (tcpCalls_congr hcalls) (fun _ _ h ↦ h) i
  · rw [inFlight_tcp ho, inFlight_tcp hmem, Tcp.arriving_of_zero (by rw [hq, hb]), hreads,
      congrFun (queued_congr hqueue) .read, congrFun hbatched .read, Function.update_self, hq, hb,
      Nat.zero_add, Nat.zero_add, Tcp.arriving_reactorCb hreading hconnected hop i]
    rfl
  · exact absurd (hdel.symm.trans ((hw.memory.deleted ho).trans hf)) (by decide)

theorem conserves_offerTcp {d : Dir} {sys : Sys} {reported : List ℕ} {offers : List (ℕ × Dir)}
    (hw : s.Wf) (hok : s.TcpInv TcpView.Ok) (hl : s.Ledger) (hlive : s.Offered TcpLive)
    (hp : s.phase = .polling reported ((i, d) :: offers)) (ho : s.mem i = some (.tcp t))
    (hk : t.reactorKernel d sys = true) (hroom : s.batch.length < maxEvents) (j : ℕ) :
    s.Conserves (.offer sys) (s.offerTcp i t d sys) j [] := by
  have hout : Tcp.OfferOutcome t d sys s.fresh _ _ _ := Tcp.offer_outcome hk
  have hreported : ∀ j, (s.offerTcp i t d sys).reportedReads j = s.reportedReads j := by
    refine hl.reportedReads_congr (tcpCalls_congr ?_) fun _ _ h ↦ h
    show s.calls ++ ((t.reactorCb d sys s.fresh).2.2.filterMap IoEffect.call?).map _ = _
    rw [hout.call_eq_nil, List.map_nil, List.append_nil]
  have hqueue : (s.offerTcp i t d sys).queue = s.queue := by
    show s.queue ++ ((t.reactorCb d sys s.fresh).2.2.filterMap IoEffect.submitted?).map _ = _
    rw [hout.submits_nil, List.map_nil, List.append_nil]
  by_cases hj : j = i
  · subst hj
    by_cases hread : d = .read ∧ t.reading = true ∧ t.connected = true
    · obtain ⟨rfl, hreading, hconnected⟩ := hread
      exact conserves_read hw hok hl hlive hp ho hroom hreading hconnected
    · have hnot : d = .read → t.reading = true → t.connected = false :=
        fun hd hr ↦ Bool.eq_false_of_not_eq_true fun hc ↦ hread ⟨hd, hr, hc⟩
      refine .quiet (hreported j) (receivedBy_offer hp fun _ x hx _ hd hr ↦ ?_) fun _ ↦ ?_
      · obtain rfl := Obj.tcp.inj (Option.some.inj (ho.symm.trans hx))
        exact hnot hd hr
      · have hmem : (s.offerTcp j t d sys).mem j = some (.tcp (t.reactorCb d sys s.fresh).1) :=
          Function.update_self ..
        have hbatched : (s.offerTcp j t d sys).batched j = Function.update (s.batched j) d
            (s.batched j d + if (t.reactorCb d sys s.fresh).2.1 then 1 else 0) :=
          batched_of_completion rfl
        rw [inFlight_tcp ho, inFlight_tcp hmem, congrFun (queued_congr hqueue) .read,
          congrFun hbatched .read]
        exact (hok j t ho).offer_arriving hout hnot
  · refine .quiet (hreported j) (receivedBy_offer hp fun h ↦ absurd h.symm hj) fun _ ↦ ?_
    refine inFlight_congr (Function.update_of_ne hj _ _) ?_
    rw [congrFun (queued_congr hqueue) .read, batched_of_completion_ne hj rfl]

theorem report_of_read {o : ℕ} (hn : 0 < s.queued i .read + s.batched i .read)
    (ho : s.mem i = some (.tcp t)) (hop : t.onRead = some o) (hread : s'.isRead o = true) :
    (s'.readReport i ⟨.tcp, i, s.freed i,
      ⟨o, t.ctxRead.status, t.readSlot.buf.buf, t.ctxRead.bytes, none⟩⟩).toList =
      s.inFlight i := by
  rw [inFlight_tcp ho]
  unfold Tcp.arriving readReport
  by_cases hstatus : t.ctxRead.status = 0
  · rw [if_pos ⟨rfl, hstatus, hread⟩, if_pos ⟨hn, hstatus⟩, hop]
    rfl
  · rw [if_neg fun hc ↦ hstatus hc.2.1, if_neg fun hc ↦ hstatus hc.2]
    rfl

section Dispatch

variable {d : Dir} {rest : List (ℕ × Dir)} {sys : Sys}

theorem dispatchTcp_frame (s : IoLoop) (i : ℕ) (t : Tcp) (d : Dir) (rest : List (ℕ × Dir))
    (sys : Sys) :
    (s.dispatchTcp i t d rest sys).calls = s.calls ++
        ((t.tcpProactorCallback d sys s.fresh).2.2.filterMap IoEffect.call?).map
          (fun c ↦ ⟨.tcp, i, s.freed i, c⟩) ∧
      (s.dispatchTcp i t d rest sys).ops = s.ops ∧
      (s.dispatchTcp i t d rest sys).freed = s.freed ∧
      (s.dispatchTcp i t d rest sys).queue = s.queue ∧
      (s.dispatchTcp i t d rest sys).batch = rest := by
  have hout : Tcp.DispatchOutcome t d sys s.fresh _ _ _ := Tcp.dispatch_outcome d
  have hsubmitted := hout.submitted
  unfold IoLoop.dispatchTcp
  rcases hcb : t.tcpProactorCallback d sys s.fresh with ⟨t', client, effects⟩
  rw [hcb] at hsubmitted
  have hq : s.queue ++ (effects.filterMap IoEffect.submitted?).map (fun d ↦ (i, d)) = s.queue := by
    rw [hsubmitted, List.map_nil, List.append_nil]
  cases client <;> exact ⟨rfl, rfl, rfl, hq, rfl⟩

/-- The memory of the events that there are, other than the one that is called. -/
theorem dispatchTcp_mem_of_ne {o : Obj} (hw : s.Wf) (hj : j ≠ i) (hoj : s.mem j = some o) :
    (s.dispatchTcp i t d rest sys).mem j = s.mem j := by
  have hlt := hw.memory.lt hoj
  unfold IoLoop.dispatchTcp
  rcases t.tcpProactorCallback d sys s.fresh with ⟨t', client, effects⟩
  cases client with
  | none => exact Function.update_of_ne hj _ _
  | some c => exact (Function.update_of_ne hlt.ne _ _).trans (Function.update_of_ne hj _ _)

theorem dispatchTcp_mem_self (hw : s.Wf) (ho : s.mem i = some (.tcp t)) :
    (s.dispatchTcp i t d rest sys).mem i =
      some (.tcp (t.tcpProactorCallback d sys s.fresh).1) := by
  have hlt := hw.memory.lt ho
  unfold IoLoop.dispatchTcp
  rcases t.tcpProactorCallback d sys s.fresh with ⟨t', client, effects⟩
  cases client with
  | none => exact Function.update_self ..
  | some c => exact (Function.update_of_ne hlt.ne _ _).trans (Function.update_self ..)

/-- The callback that takes over a completed read is told what was received. -/
theorem conserves_dispatchTcp (hw : s.Wf) (hok : s.TcpInv TcpView.Ok) (hl : s.Ledger)
    (hp : s.phase = .dispatching) (hb : s.batch = (i, d) :: rest) (ho : s.mem i = some (.tcp t))
    (j : ℕ) : ∃ new, s.Conserves (.dispatch sys) (s.dispatchTcp i t d rest sys) j new := by
  obtain ⟨hcalls, hops, hfreed, hqueue, hbatch⟩ := dispatchTcp_frame s i t d rest sys
  have hops' : ∀ o p, s.ops o = some p → (s.dispatchTcp i t d rest sys).ops o = some p :=
    fun o p h ↦ by rw [hops]; exact h
  have hq : (s.dispatchTcp i t d rest sys).queued = s.queued := by
    funext j
    exact queued_congr hqueue
  have hout : Tcp.DispatchOutcome t d sys s.fresh _ _ _ := Tcp.dispatch_outcome d
  have hread : Tcp.ReadDispatch t _ d _ := (hok i t ho).dispatch_read (batched_pos hb) hout
  have hisRead : ∀ o p, s.Pending o p →
      (s.dispatchTcp i t d rest sys).isRead o = decide (p.kind = .read) := by
    intro o p ho
    rw [isRead, hops' _ _ ho.op, Option.any_some]
  by_cases hj : j = i
  · subst hj
    have hbatched := batched_of_take hb hbatch
    have hmem : (s.dispatchTcp j t d rest sys).mem j = some (.tcp _) := dispatchTcp_mem_self hw ho
    cases hread with
    | @read o hd hop hnone hcalls' =>
      subst hd
      have hafter : (s.dispatchTcp j t .read rest sys).inFlight j = [] := by
        rw [inFlight_tcp hmem]
        exact Tcp.arriving_of_none hnone
      cases hdel : t.deleted with
      | true =>
        -- the client has freed the event: what it had received is dropped
        rw [hcalls', hdel, if_pos rfl, List.map_nil, List.append_nil] at hcalls
        refine ⟨[], ⟨?_, fun hf ↦ ?_, fun _ ↦ ⟨rfl, rfl⟩⟩⟩
        · rw [hl.reportedReads_congr (tcpCalls_congr hcalls) hops', List.append_nil]
        · rw [hfreed, ← hw.memory.deleted ho] at hf
          exact absurd (hdel.symm.trans hf) (by decide)
      | false =>
        have hf : s.freed j = false := (hw.memory.deleted ho).symm.trans hdel
        have hpending := hl.stored (k := .read) ho hf hop
        have hreport := report_of_read (Nat.add_pos_right _ (batched_pos hb)) ho hop
          (hisRead _ _ hpending)
        rw [hcalls', hdel, if_neg Bool.false_ne_true] at hcalls
        refine ⟨s.inFlight j, ⟨?_, fun _ ↦ ?_, fun hf' ↦ ?_⟩⟩
        · rw [hl.reportedReads_append (tcpCalls_of_tcp hcalls) hops', List.map_singleton,
            ← hreport]
          congr 1
        · rw [hafter]
          rfl
        · rw [hfreed, hf] at hf'
          cases hf'
    | other hkeep hcalls' =>
      refine ⟨[], .quiet (hl.reportedReads_other hcalls hops' (fun c hc ↦ .inr ?_) j) rfl
        fun _ ↦ ?_⟩
      · obtain ⟨hlive, k, hk, hon⟩ := hcalls' c hc
        rw [hisRead _ _ (hl.stored ho ((hw.memory.deleted ho).symm.trans hlive) hon)]
        exact decide_eq_false hk
      · rw [inFlight_tcp ho, inFlight_tcp hmem]
        rcases hkeep with ⟨hnone, hnone'⟩ | ⟨rfl, hop, hslot, hctx⟩
        · rw [Tcp.arriving_of_none hnone, Tcp.arriving_of_none hnone']
        · refine Tcp.arriving_congr hop hslot hctx ?_
          rw [hq, hbatched, Function.update_of_ne (by decide)]
  · refine ⟨[], .quiet ?_ rfl fun hf ↦ ?_⟩
    · rw [hl.reportedReads_append (tcpCalls_of_tcp hcalls) hops']
      refine (congrArg (_ ++ ·) (List.filterMap_eq_nil_iff.mpr fun r hr ↦ ?_)).trans
        (List.append_nil _)
      obtain ⟨c, -, rfl⟩ := List.mem_map.mp hr
      exact if_neg fun hc ↦ hj hc.1.symm
    · have hlocal : s.Local (.dispatch sys) (s.dispatchTcp i t d rest sys) j :=
        .dispatchTcp hw hb ho j
      refine hlocal.inFlight_eq ((Steps.dispatchTcp hp hb ho).wf hw) hok hf fun _ x hx ↦
        ⟨dispatchTcp_mem_of_ne hw hj hx, ?_⟩
      rw [hq, batched_of_take_ne hj hb hbatch]

end Dispatch

/-- **A step moves data in one direction.** -/
theorem Steps.conserves (hstep : s.Steps a s') (hw : s.Wf) (hok : s.TcpInv TcpView.Ok)
    (hl : s.Ledger) (hlive : s.Offered TcpLive) (j : ℕ) : ∃ new, s.Conserves a s' j new := by
  have hops : ∀ o p, s.ops o = some p → s'.ops o = some p := fun _ _ ↦ hstep.ops_eq hw hl
  have hlocal := hstep.local hw j
  have hw' := hstep.wf hw
  -- steps that invoke no callback of a TCP event and call no `read`
  have hquiet : s'.tcpCalls = s.tcpCalls → receivedBy (s.kernelReads a) j = [] →
      ((∃ sys, a = .offer sys ∨ a = .dispatch sys) → ∀ t, s.mem j = some (.tcp t) →
        s'.mem j = s.mem j ∧
          s'.queued j .read + s'.batched j .read = s.queued j .read + s.batched j .read) →
      ∃ new, s.Conserves a s' j new := fun hcalls hreads hstay ↦
    ⟨[], .quiet (hl.reportedReads_congr hcalls hops j) hreads
      fun hf ↦ hlocal.inFlight_eq hw' hok hf hstay⟩
  have hcall : (∀ sys, a ≠ .offer sys ∧ a ≠ .dispatch sys) →
      (∃ sys, a = .offer sys ∨ a = .dispatch sys) → ∀ t, s.mem j = some (.tcp t) →
        s'.mem j = s.mem j ∧
          s'.queued j .read + s'.batched j .read = s.queued j .read + s.batched j .read :=
    fun hne ⟨sys, h⟩ ↦ (h.elim (hne sys).1 (hne sys).2).elim
  have hne : ∀ {i : ℕ}, (∀ t, s.mem i ≠ some (.tcp t)) → ∀ t, s.mem j = some (.tcp t) → j ≠ i := by
    rintro i hi t ht rfl
    exact hi t ht
  cases hstep with
  | free => exact hquiet (tcpCalls_congr (by rw [eventFree_eq])) rfl (hcall (by simp))
  | processEndgame hp hx =>
    exact hquiet (tcpCalls_congr (by rw [hw.processEndgame_eq hx])) rfl (hcall (by simp))
  | @tcp i t c sys ho =>
    have hout : Tcp.CallOutcome t s.nextOp sys s.fresh c _ _ _ := Tcp.run_outcome c
    refine hquiet (tcpCalls_congr ?_) rfl (hcall (by simp))
    show s.calls ++ (List.filterMap IoEffect.call? (c.run t s.nextOp sys s.fresh).2.1).map _ = _
    rw [hout.call_eq_nil, List.map_nil, List.append_nil]
  | udp | asyncStart => exact hquiet (tcpCalls_of_ne (by decide) rfl) rfl (hcall (by simp))
  | @timeoutFires i t d sys ho hp hactive =>
    have hout : Tcp.TimeoutOutcome t d sys _ _ := Tcp.timeout_outcome d
    refine ⟨[], .quiet (hl.reportedReads_other rfl hops (fun c hc ↦ .inl (hout.status_ne hc)) j)
      rfl fun hf ↦ hlocal.inFlight_eq hw' hok hf (hcall (by simp))⟩
  | offerTcp hp ho hk hroom =>
    obtain ⟨hreported, hlive, hfreed⟩ := conserves_offerTcp hw hok hl hlive hp ho hk hroom j
    exact ⟨[], hreported, hlive, hfreed⟩
  | offerUdp hp ho | offerAsync hp ho =>
    have hj := hne fun t ht ↦ by cases ho.symm.trans ht
    refine hquiet rfl (receivedBy_offer hp ?_) fun _ t ht ↦
      ⟨Function.update_of_ne (hj t ht) _ _, ?_⟩
    · exact fun hi t ht ↦ absurd hi.symm (hj t ht)
    · exact congrArg (s.queued j .read + ·)
        (congrFun (batched_of_completion_ne (hj t ht) rfl) .read)
  | offerFull hp hfull =>
    exact hquiet rfl (receivedBy_offer hp fun _ _ _ hroom ↦ absurd hroom hfull)
      fun _ _ _ ↦ ⟨rfl, rfl⟩
  | dispatchTcp hp hb ho => exact conserves_dispatchTcp hw hok hl hp hb ho j
  | dispatchUdp hp hb ho | dispatchAsync hp hb ho =>
    have hj := hne fun t ht ↦ by cases ho.symm.trans ht
    refine hquiet (tcpCalls_of_ne (by decide) rfl) rfl fun _ t ht ↦
      ⟨Function.update_of_ne (hj t ht) _ _, ?_⟩
    exact congrArg₂ (· + ·) (congrFun (queued_of_submit_ne (hj t ht) rfl) .read)
      (congrFun (batched_of_take_ne (hj t ht) hb rfl) .read)
  | dispatchNone hp hb ho =>
    have hj := hne fun t ht ↦ by cases ho.symm.trans ht
    exact hquiet rfl rfl fun _ t ht ↦
      ⟨rfl, congrArg (s.queued j .read + ·) (congrFun (batched_of_take_ne (hj t ht) hb rfl) .read)⟩
  | _ => exact hquiet rfl rfl (hcall (by simp))

end IoLoop

/-! ## Reads are not queued -/

/-- The completion of a read does not come from the queue of the poller. -/
def TcpView.ReadUnqueued (v : TcpView) : Prop := v.t.onRead ≠ none → v.queued .read = 0

theorem TcpStep.readUnqueued {v v' : TcpView} {a : TcpAct} (hstep : TcpStep v a v') (hok : v.Ok)
    (h : v.ReadUnqueued) : v'.ReadUnqueued := by
  cases hstep with
  | @call c op sys fresh t' effects ret hlive hkernel hc =>
    have hidle : v.t.reading = false → v.queued .read = 0 := by
      intro hr
      have := (hok.read_idle hr).none_under_way
      omega
    cases hc with
    | acceptFailed hl | acceptQueued hl | acceptDeferred hl =>
      exact fun hne ↦ absurd (hok.onRead_eq_none (hok.not_connected hl)) hne
    | readDeferred _ _ _ hreading => exact fun _ ↦ hidle hreading
    | @openFailed _ _ _ _ _ _ _ _ a | @connectDeferred _ _ _ _ _ a =>
      have hnone : submits (.opened fresh.fd :: assertEffect a) .read = 0 :=
        submits_assertEffect a _
      exact fun hne ↦ by simp only [hnone, h hne]
    | writeFailed | writeDeferred => exact fun hne ↦ by simp only [submits_assertEffect, h hne]
    | _ => exact h
  | timeout hactive hbatch ho =>
    cases ho with
    | readExpired => exact fun hne ↦ absurd rfl hne
    | _ => exact h
  | offer hnone ho => cases ho <;> exact h
  | dispatch hbatch ho =>
    obtain ⟨hflag, -⟩ := hok.completed hbatch
    cases ho with
    | readDone => exact fun hne ↦ absurd rfl hne
    | readStale _ hd hconnected hlost =>
      subst hd
      exact (hok.read.not_stale hflag hconnected hlost).elim
    | _ => exact h
  | free | link => exact h
  | poll hbatch hmoved =>
    exact fun hne ↦ Nat.eq_zero_of_add_eq_zero_right ((hmoved .read).trans (h hne))

namespace IoLoop

variable {s s' : IoLoop} {a : Action} {i : ℕ} {l : List KernelRead}

theorem inFlight_of_batch_nil (h : s.TcpInv TcpView.ReadUnqueued) (hb : s.batch = []) (i : ℕ) :
    s.inFlight i = [] := by
  unfold inFlight
  split
  · next t ho =>
    by_cases hnone : t.onRead = none
    · exact Tcp.arriving_of_none hnone
    · have hq : s.queued i .read = 0 := h i t ho hnone
      exact Tcp.arriving_of_zero (by rw [hq, batched_of_batch_nil hb])
  · rfl

/-! ## Reads are exact -/

/-- The calls of `read`, and the operations they are made for. -/
structure ReadFor (s : IoLoop) (l : List KernelRead) : Prop where
  asked : ∀ r ∈ l, ∃ o, r.op = some o ∧ s.ops o = some ⟨r.event, .read, r.buf, .success⟩
  live : ∀ i, s.freed i = false → receivedBy l i = s.reportedReads i ++ s.inFlight i
  freed : ∀ i, s.freed i = true →
    ∃ rest, receivedBy l i = s.reportedReads i ++ rest ∧ rest.length ≤ 1

theorem init_readFor : init.ReadFor [] where
  asked := nofun
  live := fun _ _ ↦ rfl
  freed := fun _ hf ↦ by cases hf

theorem Steps.reads_pending (hstep : s.Steps a s') (hw : s.Wf) (hok : s.TcpInv TcpView.Ok)
    (hl : s.Ledger) (hlive : s.Offered TcpLive) {r : KernelRead} (hr : r ∈ s.kernelReads a) :
    ∃ o, r.op = some o ∧ s'.ops o = some ⟨r.event, .read, r.buf, .success⟩ := by
  obtain ⟨i, t, sys, reported, offers, -, hp, ho, -, hreading, hconnected, rfl⟩ :=
    mem_kernelReads hr
  have hdel : t.deleted = false := hlive reported _ hp (i, .read) List.mem_cons_self _ ho
  obtain ⟨o, hop⟩ := Option.ne_none_iff_exists'.mp
    ((hok i t ho).read.onIo_ne_none hreading hconnected)
  have hpending := hl.stored (k := .read) ho ((hw.memory.deleted ho).symm.trans hdel) hop
  exact ⟨o, hop, hstep.ops_eq hw hl hpending.op⟩

theorem ReadFor.step (h : s.ReadFor l) (hstep : s.Steps a s') (hw : s.Wf)
    (hok : s.TcpInv TcpView.Ok) (hl : s.Ledger) (hlive : s.Offered TcpLive) :
    s'.ReadFor (l ++ s.kernelReads a) where
  asked := by
    intro r hr
    rcases List.mem_append.mp hr with hr | hr
    · obtain ⟨o, hop, hops⟩ := h.asked r hr
      exact ⟨o, hop, hstep.ops_eq hw hl hops⟩
    · exact hstep.reads_pending hw hok hl hlive hr
  live := by
    intro i hf
    obtain ⟨new, hnew⟩ := hstep.conserves hw hok hl hlive i
    rw [receivedBy, List.filterMap_append, ← receivedBy, ← receivedBy,
      h.live i (hstep.freed_eq hw hf), List.append_assoc, hnew.live hf, hnew.reported,
      List.append_assoc]
  freed := by
    intro i hf
    obtain ⟨new, hnew⟩ := hstep.conserves hw hok hl hlive i
    obtain ⟨rfl, hreads⟩ := hnew.freed hf
    have hold : ∃ rest, receivedBy l i = s.reportedReads i ++ rest ∧ rest.length ≤ 1 := by
      cases hfree : s.freed i with
      | false => exact ⟨s.inFlight i, h.live i hfree, length_inFlight_le s i⟩
      | true => exact h.freed i hfree
    obtain ⟨rest, hrest, hlen⟩ := hold
    refine ⟨rest, ?_, hlen⟩
    rw [receivedBy, List.filterMap_append, ← receivedBy, ← receivedBy, hreads, List.append_nil,
      hrest, hnew.reported, List.append_nil]

/-- The loop with the record of the calls of `read`. -/
def readStep : IoLoop × List KernelRead → Action → Option (IoLoop × List KernelRead) :=
  recording step kernelReads

/-- What the calls of `read` have received is what `on_read` reports: `read` is only called for a
read that was started successfully, into its buffer, and what was received for an event is what was
reported for it, in the same pieces and in the same order. Missing is at most one piece, of an event
that was freed or in the batch that is being worked off. -/
structure ReadsExact (s : IoLoop) (l : List KernelRead) : Prop where
  asked : ∀ r ∈ l, ∃ o, r.op = some o ∧ s.ops o = some ⟨r.event, .read, r.buf, .success⟩
  stream : ∀ i, ∃ rest, receivedBy l i = s.reportedReads i ++ rest ∧ rest.length ≤ 1
  complete : ∀ i, s.freed i = false → s.batch = [] → receivedBy l i = s.reportedReads i

/-- **No data is lost, duplicated or reordered on its way to `on_read`**, in every run of a client
that does not call connect or listen on an event in the error state. -/
theorem readsExact_of_noReconnect {x : IoLoop × List KernelRead}
    (h : Reachable readStep (fun x a ↦ x.1.noReconnect a = true) (init, []) x) :
    x.1.ReadsExact x.2 := by
  obtain ⟨-, -, -, hqueued, hread⟩ : (x.1.Wf ∧ x.1.TcpInv TcpView.Ok ∧ x.1.Ledger) ∧
      x.1.TcpInv TcpView.Closed ∧ x.1.Offered TcpLive ∧ x.1.TcpInv TcpView.ReadUnqueued ∧
      x.1.ReadFor x.2 := by
    refine h.invariant (I := fun x ↦ (x.1.Wf ∧ x.1.TcpInv TcpView.Ok ∧ x.1.Ledger) ∧
      x.1.TcpInv TcpView.Closed ∧ x.1.Offered TcpLive ∧ x.1.TcpInv TcpView.ReadUnqueued ∧
        x.1.ReadFor x.2)
      ⟨⟨init_wf, init_tcpInv _, init_ledger⟩, init_tcpInv _, nofun, init_tcpInv _, init_readFor⟩ ?_
    rintro x a y ⟨⟨hw, hok, hl⟩, hclosed, hlive, hqueued, hread⟩ ha hstep
    obtain ⟨hstep, hy⟩ := recording_eq_some hstep
    have hsteps := step_eq_some hstep
    refine ⟨⟨hsteps.wf hw, tcpOk_step hok hw hstep ha, hsteps.ledger hw hok ha hl⟩, ?_,
      hsteps.offered_tcpLive hw hclosed hlive, ?_, ?_⟩
    · exact hclosed.step (A := fun _ _ ↦ True) hw hstep
        (fun v hv ↦ by cases hv <;> exact nofun) (fun _ _ _ htcp hv _ ↦ htcp.closed hv)
        fun _ _ _ _ _ ↦ trivial
    · exact hqueued.step (A := fun v _ ↦ v.Ok) hw hstep (fun v hv _ ↦ by cases hv <;> rfl)
        (fun _ _ _ htcp hv hokv ↦ htcp.readUnqueued hokv hv) fun i t _ ht _ ↦ hok i t ht
    · rw [hy]
      exact hread.step hsteps hw hok hl hlive
  refine ⟨hread.asked, fun i ↦ ?_, fun i hf hb ↦ ?_⟩
  · cases hf : x.1.freed i with
    | false => exact ⟨_, hread.live i hf, length_inFlight_le _ i⟩
    | true => exact hread.freed i hf
  · rw [hread.live i hf, inFlight_of_batch_nil hqueued hb, List.append_nil]

/-- A connection is read three times: the first read finds nothing when it is woken up and is served
by the second call, the next one is served at once, and the last one is told the end of the
stream. -/
def readToEnd : List Action :=
  [.new .tcp, .tcp 0 (.connect true none true) { Sys.ok 0 with connect := .done }, .runEnter,
    .processEndgame, .takeQueued, .dispatch (.ok 0), .tcp 0 (.read ⟨4, 8⟩ none true) (.ok 0),
    .callbackReturn, .nextRound, .processEndgame,
    .epollWait, .report 0 .readable, .offer { Sys.ok 0 with io := .wouldBlock }, .pollReturn,
    .nextRound, .processEndgame,
    .epollWait, .report 0 .readable, .offer (.ok 4), .pollReturn, .dispatch (.ok 0),
    .tcp 0 (.read ⟨16, 32⟩ none true) (.ok 0), .callbackReturn, .nextRound, .processEndgame,
    .epollWait, .report 0 .readable, .offer (.ok 3), .pollReturn, .dispatch (.ok 0),
    .tcp 0 (.read ⟨16, 64⟩ none true) (.ok 0), .callbackReturn, .nextRound, .processEndgame,
    .epollWait, .report 0 .readable, .offer (.ok 0), .pollReturn, .dispatch (.ok 0)]

theorem readsExact_of_noReconnect_toEnd :
    ∃ x, exec readStep (fun x a ↦ x.1.noReconnect a = true) (init, []) readToEnd = some x ∧
      x.1.reportedReads 0 = [⟨1, 8, 4⟩, ⟨2, 32, 3⟩, ⟨3, 64, 0⟩] ∧
      receivedBy x.2 0 = [⟨1, 8, 4⟩, ⟨2, 32, 3⟩, ⟨3, 64, 0⟩] ∧ x.1.ReadsExact x.2 := by
  have hrun : ((exec readStep (fun x a ↦ x.1.noReconnect a = true) (init, []) readToEnd).map
      fun x ↦ (x.1.reportedReads 0, receivedBy x.2 0)) =
      some ([⟨1, 8, 4⟩, ⟨2, 32, 3⟩, ⟨3, 64, 0⟩], [⟨1, 8, 4⟩, ⟨2, 32, 3⟩, ⟨3, 64, 0⟩]) := by
    decide +kernel
  obtain ⟨x, hx, hfields⟩ := Option.map_eq_some_iff.mp hrun
  obtain ⟨hreported, hreceived⟩ := Prod.mk.inj hfields
  exact ⟨x, hx, hreported, hreceived, readsExact_of_noReconnect (Reachable.of_exec hx)⟩

end IoLoop

end Nanoev
