import Nanoev.Io.TcpLoop

/-!
# Completions of TCP operations

The callbacks that TCP events have stored are accounted for in a ledger of the operations started
and the callbacks invoked. A callback that is stored belongs to an operation that was started
successfully on this event, with the buffer that is stored beside it, and that has not been called
back yet. Starting an operation stores its callback where none was stored; an invocation takes the
callback out. So a callback is invoked at most once, with the buffer of its own operation, and on an
event that has not been freed no operation is forgotten.
-/

namespace Nanoev

open Transition

namespace Tcp

def on (t : Tcp) : OpKind → Option ℕ
  | .connect => t.onConnect
  | .accept => t.onAccept
  | .read => t.onRead
  | .write => t.onWrite

def buf (t : Tcp) : OpKind → IoBuf
  | .read => t.readSlot.buf
  | .write => t.bufWrite
  | _ => ⟨0, 0⟩

/-! ## What the functions do with the callbacks

A call stores a callback or leaves all of them as they are; `reactor_cb` leaves them as they are; a
completion or a timeout takes one out and invokes it, unless the event has been freed. -/

def Keeps (t t' : Tcp) (k : OpKind) : Prop :=
  t'.on k = t.on k ∧ (t.on k ≠ none → t'.buf k = t.buf k)

theorem Keeps.refl (t : Tcp) (k : OpKind) : t.Keeps t k := ⟨rfl, fun _ ↦ rfl⟩

/-- The callback is taken out and invoked, with its buffer and a length that fits into it. -/
structure Calls (t t' : Tcp) (k : OpKind) (c : Call) : Prop where
  stored : t.on k = some c.op
  taken : t'.on k = none
  buf : c.buf = (t.buf k).buf
  bytes : c.bytes ≤ (t.buf k).len
  others : ∀ k', k' ≠ k → t.Keeps t' k'

/-- The invocations by an event that has been freed, or not. -/
inductive Handover (t t' : Tcp) : List Call → Prop
  | kept (h : ∀ k, t.Keeps t' k) : Handover t t' []
  | called {k : OpKind} {c : Call} (hlive : t.deleted = false) (h : t.Calls t' k c) :
    Handover t t' [c]
  | dropped (hdeleted : t.deleted = true) : Handover t t' []

/-- A function that invokes a callback unless the event has been freed. -/
theorem handover_callUnless {t t' : Tcp} {k : OpKind} {c : Call} (h : t.Calls t' k c) :
    Handover t t' ((callUnless t.deleted c).filterMap IoEffect.call?) := by
  cases hdel : t.deleted with
  | true => exact .dropped hdel
  | false => exact .called hdel h

/-- What starting an operation does with the callbacks. -/
inductive Started (t t' : Tcp) (op : ℕ) (c : TcpCall) (ret : RetCode) : Prop
  | success {k : OpKind} {b : IoBuf} (hret : ret = .success) (hop : c.op? = some (k, b))
      (hidle : ∀ k', k'.dir = k.dir → t.on k' = none) (hon : t'.on k = some op)
      (hbuf : t'.buf k = b) (hothers : ∀ k', k' ≠ k → t.Keeps t' k')
  | failed (hret : ret = .success → c.op? = none) (hkept : ∀ k, t.Keeps t' k)

theorem CallOutcome.call_eq_nil {t t' : Tcp} {op : ℕ} {sys : Sys} {fresh : Fresh} {c : TcpCall}
    {effects : List IoEffect} {ret : RetCode} (h : CallOutcome t op sys fresh c t' effects ret) :
    effects.filterMap IoEffect.call? = [] := by
  have hassert : ∀ a, (assertEffect a).filterMap IoEffect.call? = [] := fun a ↦ by cases a <;> rfl
  cases h with
  | openFailed | connectDeferred | writeFailed | writeDeferred => exact hassert _
  | acceptFailed _ _ _ _ heffects => rcases heffects with rfl | rfl <;> rfl
  | _ => rfl

theorem OfferOutcome.call_eq_nil {t t' : Tcp} {d : Dir} {sys : Sys} {fresh : Fresh}
    {completed : Bool} {effects : List IoEffect}
    (h : OfferOutcome t d sys fresh t' completed effects) :
    effects.filterMap IoEffect.call? = [] := by
  cases h with
  | acceptFailed _ _ _ heffects => rcases heffects with rfl | rfl <;> rfl
  | _ => rfl

theorem AcceptOutcome.call_eq {alloc : Bool} {slot : Option ℕ} {status : ℤ} {op : ℕ} {sys : Sys}
    {fresh : Fresh} {client : Option Tcp} {effects : List IoEffect}
    (h : AcceptOutcome alloc slot status op sys fresh client effects) :
    ∃ status new, effects.filterMap IoEffect.call? = [⟨op, status, 0, 0, new⟩] := by
  cases h <;> cases alloc <;> cases slot <;> exact ⟨_, _, rfl⟩

end Tcp

namespace TcpView.Ok

open Tcp

variable {v : TcpView} {t' : Tcp} {sys : Sys} {fresh : Fresh} {effects : List IoEffect}

theorem on_eq_none (h : v.Ok) (d : Dir) (hflag : (v.t.side d).flag = false) {k : OpKind}
    (hk : k.dir = d) : v.t.on k = none := by
  have hidle := (h.side d).idle hflag
  subst hk
  cases k with
  | connect | accept => exact hidle.onConn
  | read | write => exact hidle.onIo

theorem started {op : ℕ} {c : TcpCall} {ret : RetCode} (h : v.Ok) (hlive : v.t.deleted = false)
    (hopen : opens c = true → v.t.error = false)
    (hc : CallOutcome v.t op sys fresh c t' effects ret) : Started v.t t' op c ret := by
  cases hc with
  | refused hret => exact .failed hret (Keeps.refl _)
  | systemFailed | noSocket | openFailed =>
    exact .failed nofun fun k ↦ by cases k <;> exact ⟨rfl, fun _ ↦ rfl⟩
  | connectQueued hsock | connectDeferred hsock =>
    obtain ⟨-, hw, -⟩ := h.pristine (hopen rfl) hlive hsock
    refine .success rfl rfl (fun k' hk' ↦ h.on_eq_none .write hw hk') rfl rfl fun k' hk' ↦ ?_
    cases k' with
    | connect => exact absurd rfl hk'
    | _ => exact ⟨rfl, fun _ ↦ rfl⟩
  | listenDone =>
    exact .failed (fun _ ↦ rfl) fun k ↦ by cases k <;> exact ⟨rfl, fun _ ↦ rfl⟩
  | acceptFailed hlistening =>
    -- the slot of the read buffer is overwritten, but no read is pending on a listener
    have hr := h.read.onIo_eq_none (h.not_connected hlistening)
    refine .failed nofun fun k ↦ ?_
    cases k with
    | read => exact ⟨rfl, fun hk ↦ absurd hr hk⟩
    | _ => exact ⟨rfl, fun _ ↦ rfl⟩
  | acceptQueued hlistening hsock herror hreading
  | acceptDeferred hlistening hsock herror hreading =>
    refine .success rfl rfl (fun k' hk' ↦ h.on_eq_none .read hreading hk') rfl rfl fun k' hk' ↦ ?_
    have hr := h.read.onIo_eq_none (h.not_connected hlistening)
    cases k' with
    | accept => exact absurd rfl hk'
    | read => exact ⟨rfl, fun hk ↦ absurd hr hk⟩
    | _ => exact ⟨rfl, fun _ ↦ rfl⟩
  | writeFailed hconnected herror hwriting =>
    have hw := (h.write_idle hwriting).onIo
    refine .failed nofun fun k ↦ ?_
    cases k with
    | write => exact ⟨rfl, fun hk ↦ absurd hw hk⟩
    | _ => exact ⟨rfl, fun _ ↦ rfl⟩
  | writeQueued hconnected hsock herror hwriting
  | writeDeferred hconnected hsock herror hwriting =>
    refine .success rfl rfl (fun k' hk' ↦ h.on_eq_none .write hwriting hk') rfl rfl fun k' hk' ↦ ?_
    cases k' with
    | write => exact absurd rfl hk'
    | _ => exact ⟨rfl, fun _ ↦ rfl⟩
  | readFailed hconnected herror hreading =>
    have hr := (h.read_idle hreading).onIo
    refine .failed nofun fun k ↦ ?_
    cases k with
    | read => exact ⟨rfl, fun hk ↦ absurd hr hk⟩
    | _ => exact ⟨rfl, fun _ ↦ rfl⟩
  | readDeferred hconnected hsock herror hreading =>
    refine .success rfl rfl (fun k' hk' ↦ h.on_eq_none .read hreading hk') rfl rfl fun k' hk' ↦ ?_
    cases k' with
    | read => exact absurd rfl hk'
    | _ => exact ⟨rfl, fun _ ↦ rfl⟩

theorem timeout_handover {d : Dir} (h : v.Ok) (hactive : (v.t.timeout d).active = true)
    (ho : TimeoutOutcome v.t d sys t' effects) :
    Handover v.t t' (effects.filterMap IoEffect.call?) := by
  have hclosing : ∀ k, (closing k).filterMap IoEffect.call? = [] := fun k ↦ by cases k <;> rfl
  cases ho with
  | readIgnored hd hτ her hlost => subst hd; exact (h.read.not_ignored hactive hlost).elim
  | writeIgnored hd hτ her hlost => subst hd; exact (h.write.not_ignored hactive hlost).elim
  | acceptExpired hd hto hflag hop =>
    rw [List.filterMap_append, hclosing, List.nil_append]
    refine handover_callUnless (k := .accept) ⟨hop, rfl, rfl, Nat.zero_le _, fun k' hk' ↦ ?_⟩
    cases k' with
    | accept => exact absurd rfl hk'
    | _ => exact ⟨rfl, fun _ ↦ rfl⟩
  | readExpired hd hto hflag hop =>
    rw [List.filterMap_append, hclosing, List.nil_append]
    refine handover_callUnless (k := .read) ⟨hop, rfl, rfl, Nat.zero_le _, fun k' hk' ↦ ?_⟩
    cases k' with
    | read => exact absurd rfl hk'
    | _ => exact ⟨rfl, fun _ ↦ rfl⟩
  | connectExpired hd hto hflag hop hreg =>
    rw [List.filterMap_append, hclosing, List.nil_append]
    refine handover_callUnless (k := .connect) ⟨hop, rfl, rfl, Nat.zero_le _, fun k' hk' ↦ ?_⟩
    cases k' with
    | connect => exact absurd rfl hk'
    | _ => exact ⟨rfl, fun _ ↦ rfl⟩
  | writeExpired hd hto hflag hop hreg =>
    rw [List.filterMap_append, hclosing, List.nil_append]
    refine handover_callUnless (k := .write) ⟨hop, rfl, rfl, Nat.zero_le _, fun k' hk' ↦ ?_⟩
    cases k' with
    | write => exact absurd rfl hk'
    | _ => exact ⟨rfl, fun _ ↦ rfl⟩

theorem offer_keeps {d : Dir} {completed : Bool} (h : v.Ok)
    (ho : OfferOutcome v.t d sys fresh t' completed effects) (k : OpKind) : v.t.Keeps t' k := by
  cases ho with
  | accepted hd hreading hconnected | acceptFailed hd hreading hconnected =>
    have hr := h.read.onIo_eq_none hconnected
    cases k with
    | read => exact ⟨rfl, fun hk ↦ absurd hr hk⟩
    | _ => exact ⟨rfl, fun _ ↦ rfl⟩
  | _ => cases k <;> exact ⟨rfl, fun _ ↦ rfl⟩

theorem dispatch_handover {d : Dir} {client : Option Tcp} (h : v.Ok) (hbatch : 0 < v.batched d)
    (ho : DispatchOutcome v.t d sys fresh t' client effects) :
    Handover v.t t' (effects.filterMap IoEffect.call?) := by
  obtain ⟨hflag, -⟩ := h.completed hbatch
  have hbytes := (h.side d).bytes (Nat.add_pos_right _ hbatch)
  have hclose : ∀ slot, (closeAccepted slot).filterMap IoEffect.call? = [] :=
    fun slot ↦ by cases slot <;> rfl
  cases ho with
  | readDone hn hd hconnected hreading hop =>
    subst hd
    refine handover_callUnless (k := .read) ⟨hop, rfl, rfl, hbytes hconnected, fun k' hk' ↦ ?_⟩
    cases k' with
    | read => exact absurd rfl hk'
    | _ => exact ⟨rfl, fun _ ↦ rfl⟩
  | writeDone hn hd hconnected hwriting hop =>
    subst hd
    refine handover_callUnless (k := .write) ⟨hop, rfl, rfl, hbytes hconnected, fun k' hk' ↦ ?_⟩
    cases k' with
    | write => exact absurd rfl hk'
    | _ => exact ⟨rfl, fun _ ↦ rfl⟩
  | @acceptDone m k er ec op hn hconnected hlistening hreading hop hdeleted =>
    have hr := h.read.onIo_eq_none hconnected
    obtain ⟨status, new, hcall⟩ : ∃ status new, (acceptClient v.t.readSlot.allocUserdata
        v.t.readSlot.socketAccept (v.t.ctx d).status op sys fresh).2.filterMap IoEffect.call? =
          [⟨op, status, 0, 0, new⟩] := (acceptClient_outcome ..).call_eq
    rw [hcall]
    refine .called (k := .accept) hdeleted ⟨hop, rfl, rfl, Nat.zero_le _, fun k' hk' ↦ ?_⟩
    cases k' with
    | accept => exact absurd rfl hk'
    | read => exact ⟨rfl, fun hk ↦ absurd hr hk⟩
    | _ => exact ⟨rfl, fun _ ↦ rfl⟩
  | acceptDropped hn hconnected hlistening hreading hop hdeleted =>
    rw [hclose]
    exact .dropped hdeleted
  | connectDone hn hconnected hlistening hwriting hop hdeleted =>
    refine .called (k := .connect) hdeleted ⟨hop, rfl, rfl, Nat.zero_le _, fun k' hk' ↦ ?_⟩
    cases k' with
    | connect => exact absurd rfl hk'
    | _ => exact ⟨rfl, fun _ ↦ rfl⟩
  | connectFailed hn hconnected hlistening hwriting hop hfailed =>
    refine handover_callUnless (k := .connect) ⟨hop, rfl, rfl, Nat.zero_le _, fun k' hk' ↦ ?_⟩
    cases k' with
    | connect => exact absurd rfl hk'
    | _ => exact ⟨rfl, fun _ ↦ rfl⟩
  | readStale hn hd hconnected hlost =>
    subst hd
    exact (h.read.not_stale hflag hconnected hlost).elim
  | writeStale hn hd hconnected hlost =>
    subst hd
    exact (h.write.not_stale hflag hconnected hlost).elim
  | acceptStale hn hconnected hlistening hlost =>
    obtain rfl := h.eq_read_of_listening hflag hconnected hlistening
    exact (h.read.not_staleConn hflag hconnected hlost).elim
  | connectStale hn hconnected hlistening hlost =>
    obtain rfl := h.eq_write_of_not_listening hflag hconnected hlistening
    exact (h.write.not_staleConn hflag hconnected hlost).elim

end TcpView.Ok

/-! ## The ledger of the loop

Three rules keep the ledger: a step in which nothing is started and nothing invoked
(`Ledger.quiet`), one that starts an operation (`Ledger.start`), and one that invokes a callback
(`Ledger.serve`). -/

namespace IoLoop

def tcpCalls (s : IoLoop) : List CallRecord := s.calls.filter fun c ↦ c.type = .tcp

/-- The operations whose callbacks have been invoked, in order. -/
def served (s : IoLoop) : List ℕ := s.tcpCalls.map fun c ↦ c.call.op

/-- An invocation is for an operation that was started successfully on the same event, which has not
been freed, and it passes the buffer of the operation and a length that fits into it. -/
structure Rightful (s : IoLoop) (c : CallRecord) (p : Op) : Prop where
  op : s.ops c.call.op = some p
  success : p.ret = .success
  event : c.event = p.event
  live : c.freed = false
  buf : c.call.buf = p.buf.buf
  bytes : c.call.bytes ≤ p.buf.len

/-- An operation is pending: it was started successfully and its callback was not invoked. -/
structure Pending (s : IoLoop) (o : ℕ) (p : Op) : Prop where
  op : s.ops o = some p
  success : p.ret = .success
  unserved : o ∉ s.served

/-- The callbacks stored in the events, the operations started and the callbacks invoked. -/
structure Ledger (s : IoLoop) : Prop where
  ops_lt : ∀ {o}, s.nextOp ≤ o → s.ops o = none
  stored : ∀ {i t k o}, s.mem i = some (.tcp t) → s.freed i = false → t.on k = some o →
    s.Pending o ⟨i, k, t.buf k, .success⟩
  rightful : ∀ {c}, c ∈ s.tcpCalls → ∃ p, s.Rightful c p
  nodup : s.served.Nodup
  pending : ∀ {o p}, s.Pending o p → s.freed p.event = false →
    ∃ t, s.mem p.event = some (.tcp t) ∧ t.on p.kind = some o
  single : ∀ {o o' p p'}, s.Pending o p → s.Pending o' p' → p.event = p'.event →
    p.kind.dir = p'.kind.dir → o = o'

theorem init_ledger : init.Ledger where
  ops_lt := fun _ ↦ rfl
  stored := nofun
  rightful := nofun
  nodup := List.nodup_nil
  pending := fun h ↦ by cases h.op
  single := fun h ↦ by cases h.op

variable {s s' : IoLoop} {i : ℕ} {t t' : Tcp}

/-- The TCP events that have not been freed keep their callbacks. -/
structure TcpKept (s s' : IoLoop) : Prop where
  freed : ∀ {j}, s'.freed j = false → s.freed j = false
  new : ∀ {j y}, s'.mem j = some (.tcp y) → s'.freed j = false →
    (∀ k, y.on k = none) ∨ ∃ x, s.mem j = some (.tcp x) ∧ ∀ k, x.Keeps y k
  old : ∀ {j x}, s.mem j = some (.tcp x) → s'.freed j = false →
    ∃ y, s'.mem j = some (.tcp y) ∧ ∀ k, x.Keeps y k

theorem Pending.congr {o : ℕ} {p : Op} (h : s.Pending o p) (hops : s'.ops = s.ops)
    (hcalls : s'.tcpCalls = s.tcpCalls) : s'.Pending o p :=
  ⟨by rw [hops]; exact h.op, h.success, by rw [served, hcalls]; exact h.unserved⟩

theorem Ledger.quiet (h : s.Ledger) (hk : s.TcpKept s') (hops : s'.ops = s.ops)
    (hn : s.nextOp ≤ s'.nextOp) (hcalls : s'.tcpCalls = s.tcpCalls) : s'.Ledger where
  ops_lt := fun ho ↦ by rw [hops]; exact h.ops_lt (hn.trans ho)
  stored := by
    intro j y k o hy hf ho
    rcases hk.new hy hf with hnone | ⟨x, hx, hkeeps⟩
    · rw [hnone k] at ho
      cases ho
    · have hxo : x.on k = some o := (hkeeps k).1.symm.trans ho
      rw [(hkeeps k).2 (by rw [hxo]; exact Option.some_ne_none o)]
      exact (h.stored hx (hk.freed hf) hxo).congr hops hcalls
  rightful := by
    intro c hc
    rw [hcalls] at hc
    obtain ⟨p, hp⟩ := h.rightful hc
    exact ⟨p, by rw [hops]; exact hp.op, hp.success, hp.event, hp.live, hp.buf, hp.bytes⟩
  nodup := by rw [served, hcalls]; exact h.nodup
  pending := by
    intro o p hp hf
    obtain ⟨x, hx, hxo⟩ := h.pending (hp.congr hops.symm hcalls.symm) (hk.freed hf)
    obtain ⟨y, hy, hkeeps⟩ := hk.old hx hf
    exact ⟨y, hy, (hkeeps _).1.trans hxo⟩
  single := fun hp hp' ↦ h.single (hp.congr hops.symm hcalls.symm) (hp'.congr hops.symm hcalls.symm)

theorem Ledger.serve {k : OpKind} {c : Call} (h : s.Ledger) (ho : s.mem i = some (.tcp t))
    (hf : s.freed i = false) (hc : t.Calls t' k c)
    (hmem : s'.mem = Function.update s.mem i (some (.tcp t'))) (hfreed : s'.freed = s.freed)
    (hops : s'.ops = s.ops) (hn : s.nextOp ≤ s'.nextOp)
    (hcalls : s'.tcpCalls = s.tcpCalls ++ [⟨.tcp, i, s.freed i, c⟩]) : s'.Ledger := by
  have hown := h.stored ho hf hc.stored
  have hserved : s'.served = s.served ++ [c.op] := by
    rw [served, hcalls, List.map_append, served, List.map_singleton]
  -- only the operation that is called back stops being pending
  have hpending : ∀ {o p}, s'.Pending o p ↔ s.Pending o p ∧ o ≠ c.op := by
    intro o p
    constructor
    · intro hp
      have hnot := hp.unserved
      rw [hserved, List.mem_append, List.mem_singleton, not_or] at hnot
      exact ⟨⟨by rw [← hops]; exact hp.op, hp.success, hnot.1⟩, hnot.2⟩
    · rintro ⟨hp, hne⟩
      refine ⟨by rw [hops]; exact hp.op, hp.success, ?_⟩
      rw [hserved, List.mem_append, List.mem_singleton, not_or]
      exact ⟨hp.unserved, hne⟩
  refine ⟨fun ho ↦ by rw [hops]; exact h.ops_lt (hn.trans ho), ?_, ?_, ?_, ?_,
    fun hp hp' ↦ h.single (hpending.mp hp).1 (hpending.mp hp').1⟩
  · intro j y k' o hy hfj hyo
    rw [hfreed] at hfj
    by_cases hj : j = i
    · subst hj
      rw [hmem, Function.update_self] at hy
      obtain rfl := Obj.tcp.inj (Option.some.inj hy)
      -- the callback of this kind has been taken out
      have hk : k' ≠ k := by
        rintro rfl
        rw [hc.taken] at hyo
        cases hyo
      have hto : t.on k' = some o := (hc.others k' hk).1.symm.trans hyo
      have hp := h.stored ho hf hto
      rw [(hc.others k' hk).2 (by rw [hto]; exact Option.some_ne_none o)]
      refine hpending.mpr ⟨hp, ?_⟩
      rintro rfl
      exact hk (Op.mk.inj (Option.some.inj (hp.op.symm.trans hown.op))).2.1
    · rw [hmem, Function.update_of_ne hj] at hy
      have hp := h.stored hy hfj hyo
      refine hpending.mpr ⟨hp, ?_⟩
      rintro rfl
      exact hj (Op.mk.inj (Option.some.inj (hp.op.symm.trans hown.op))).1
  · intro r hr
    rw [hcalls, List.mem_append, List.mem_singleton] at hr
    rcases hr with hr | rfl
    · obtain ⟨p, hp⟩ := h.rightful hr
      exact ⟨p, by rw [hops]; exact hp.op, hp.success, hp.event, hp.live, hp.buf, hp.bytes⟩
    · exact ⟨_, by rw [hops]; exact hown.op, rfl, rfl, hf, hc.buf, hc.bytes⟩
  · rw [hserved, ← List.concat_eq_append]
    exact h.nodup.concat hown.unserved
  · intro o p hp hfp
    obtain ⟨hp, hne⟩ := hpending.mp hp
    rw [hfreed] at hfp
    obtain ⟨x, hx, hxo⟩ := h.pending hp hfp
    by_cases hj : p.event = i
    · rw [hj] at hx ⊢
      obtain rfl := Obj.tcp.inj (Option.some.inj (ho.symm.trans hx))
      have hk : p.kind ≠ k := by
        intro hk
        rw [hk, hc.stored] at hxo
        exact hne (Option.some.inj hxo).symm
      exact ⟨t', by rw [hmem, Function.update_self], (hc.others _ hk).1.trans hxo⟩
    · exact ⟨x, by rw [hmem, Function.update_of_ne hj]; exact hx, hxo⟩

theorem Ledger.start {k : OpKind} {b : IoBuf} (h : s.Ledger) (ho : s.mem i = some (.tcp t))
    (hf : s.freed i = false) (hidle : ∀ k', k'.dir = k.dir → t.on k' = none)
    (hon : t'.on k = some s.nextOp) (hbuf : t'.buf k = b)
    (hothers : ∀ k', k' ≠ k → t.Keeps t' k')
    (hmem : s'.mem = Function.update s.mem i (some (.tcp t'))) (hfreed : s'.freed = s.freed)
    (hops : s'.ops = Function.update s.ops s.nextOp (some ⟨i, k, b, .success⟩))
    (hn : s'.nextOp = s.nextOp + 1) (hcalls : s'.tcpCalls = s.tcpCalls) : s'.Ledger := by
  have hserved : s'.served = s.served := by rw [served, hcalls, served]
  have hfresh : ∀ {o p}, s.ops o = some p → o ≠ s.nextOp := by
    rintro o p hop rfl
    rw [h.ops_lt le_rfl] at hop
    cases hop
  have hnew : s.nextOp ∉ s.served := by
    intro hmem
    obtain ⟨r, hr, hro⟩ := List.mem_map.mp hmem
    obtain ⟨p, hp⟩ := h.rightful hr
    exact hfresh hp.op hro
  have hpending : ∀ {o p}, s'.Pending o p ↔
      s.Pending o p ∨ o = s.nextOp ∧ p = ⟨i, k, b, .success⟩ := by
    intro o p
    constructor
    · intro hp
      have hop := hp.op
      rw [hops, Function.update_apply] at hop
      split at hop
      · next heq => exact .inr ⟨heq, (Option.some.inj hop).symm⟩
      · exact .inl ⟨hop, hp.success, hserved ▸ hp.unserved⟩
    · rintro (hp | ⟨rfl, rfl⟩)
      · refine ⟨?_, hp.success, by rw [hserved]; exact hp.unserved⟩
        rw [hops, Function.update_of_ne (hfresh hp.op)]
        exact hp.op
      · exact ⟨by rw [hops, Function.update_self], rfl, by rw [hserved]; exact hnew⟩
  -- an operation of the same direction that is still pending would be stored in the event
  have hfree : ∀ {o p}, s.Pending o p → p.event = i → p.kind.dir ≠ k.dir := by
    intro o p hp hi hdir
    obtain ⟨x, hx, hxo⟩ := h.pending hp (by rw [hi]; exact hf)
    rw [hi] at hx
    obtain rfl := Obj.tcp.inj (Option.some.inj (ho.symm.trans hx))
    rw [hidle _ hdir] at hxo
    cases hxo
  refine ⟨fun {o} hle ↦ ?_, ?_, ?_, by rw [hserved]; exact h.nodup, ?_, ?_⟩
  · rw [hn] at hle
    rw [hops, Function.update_of_ne (by omega)]
    exact h.ops_lt (by omega)
  · intro j y k' o hy hfj hyo
    rw [hfreed] at hfj
    by_cases hj : j = i
    · subst hj
      rw [hmem, Function.update_self] at hy
      obtain rfl := Obj.tcp.inj (Option.some.inj hy)
      by_cases hk : k' = k
      · subst hk
        rw [hon] at hyo
        exact hpending.mpr (.inr ⟨(Option.some.inj hyo).symm, by rw [hbuf]⟩)
      · have hto : t.on k' = some o := (hothers k' hk).1.symm.trans hyo
        rw [(hothers k' hk).2 (by rw [hto]; exact Option.some_ne_none o)]
        exact hpending.mpr (.inl (h.stored ho hf hto))
    · rw [hmem, Function.update_of_ne hj] at hy
      exact hpending.mpr (.inl (h.stored hy hfj hyo))
  · intro r hr
    rw [hcalls] at hr
    obtain ⟨p, hp⟩ := h.rightful hr
    refine ⟨p, ?_, hp.success, hp.event, hp.live, hp.buf, hp.bytes⟩
    rw [hops, Function.update_of_ne (hfresh hp.op)]
    exact hp.op
  · intro o p hp hfp
    rw [hfreed] at hfp
    rcases hpending.mp hp with hp | ⟨rfl, rfl⟩
    · obtain ⟨x, hx, hxo⟩ := h.pending hp hfp
      by_cases hj : p.event = i
      · have hk : p.kind ≠ k := fun hk ↦ hfree hp hj (by rw [hk])
        rw [hj] at hx ⊢
        obtain rfl := Obj.tcp.inj (Option.some.inj (ho.symm.trans hx))
        exact ⟨t', by rw [hmem, Function.update_self], (hothers _ hk).1.trans hxo⟩
      · exact ⟨x, by rw [hmem, Function.update_of_ne hj]; exact hx, hxo⟩
    · exact ⟨t', by rw [hmem, Function.update_self], hon⟩
  · intro o o' p p' hp hp' he hd
    rcases hpending.mp hp with hp | ⟨rfl, rfl⟩ <;> rcases hpending.mp hp' with hp' | ⟨rfl, rfl⟩
    · exact h.single hp hp' he hd
    · exact absurd hd (hfree hp he)
    · exact absurd hd.symm (hfree hp' he.symm)
    · rfl

theorem Ledger.record {p : Op} (h : s.Ledger) (hp : p.ret ≠ .success) :
    Ledger { s with ops := Function.update s.ops s.nextOp (some p), nextOp := s.nextOp + 1 } := by
  have hother : ∀ {o q}, s.ops o = some q →
      Function.update s.ops s.nextOp (some p) o = some q := by
    intro o q hq
    rw [Function.update_of_ne]
    · exact hq
    · rintro rfl
      rw [h.ops_lt le_rfl] at hq
      cases hq
  have hpending : ∀ {o q}, Pending
      { s with ops := Function.update s.ops s.nextOp (some p), nextOp := s.nextOp + 1 } o q →
        s.Pending o q := by
    intro o q hq
    have hop : Function.update s.ops s.nextOp (some p) o = some q := hq.op
    rw [Function.update_apply] at hop
    split at hop
    · obtain rfl := Option.some.inj hop
      exact absurd hq.success hp
    · exact ⟨hop, hq.success, hq.unserved⟩
  refine ⟨fun {o} ho ↦ ?_, fun ht hf hon ↦ ?_, fun hc ↦ ?_, h.nodup,
    fun hq ↦ h.pending (hpending hq), fun hq hq' ↦ h.single (hpending hq) (hpending hq')⟩
  · have ho : s.nextOp + 1 ≤ o := ho
    exact (Function.update_of_ne (by omega) _ _).trans (h.ops_lt (by omega))
  · have hq := h.stored ht hf hon
    exact ⟨hother hq.op, hq.success, hq.unserved⟩
  · obtain ⟨q, hq⟩ := h.rightful hc
    exact ⟨q, hother hq.op, hq.success, hq.event, hq.live, hq.buf, hq.bytes⟩

/-! ## Where nothing happens to the callbacks -/

namespace TcpKept

theorem of_mem (hmem : s'.mem = s.mem) (hfreed : s'.freed = s.freed) : s.TcpKept s' where
  freed := fun hf ↦ hfreed ▸ hf
  new := fun hy _ ↦ .inr ⟨_, hmem ▸ hy, Tcp.Keeps.refl _⟩
  old := fun hx _ ↦ ⟨_, hmem ▸ hx, Tcp.Keeps.refl _⟩

theorem put (ho : s.mem i = some (.tcp t)) (hk : s.freed i = false → ∀ k, t.Keeps t' k)
    (hmem : s'.mem = Function.update s.mem i (some (.tcp t'))) (hfreed : s'.freed = s.freed) :
    s.TcpKept s' where
  freed := fun hf ↦ hfreed ▸ hf
  new := by
    intro j y hy hf
    rw [hfreed] at hf
    by_cases hj : j = i
    · subst hj
      rw [hmem, Function.update_self] at hy
      obtain rfl := Obj.tcp.inj (Option.some.inj hy)
      exact .inr ⟨t, ho, hk hf⟩
    · rw [hmem, Function.update_of_ne hj] at hy
      exact .inr ⟨y, hy, Tcp.Keeps.refl y⟩
  old := by
    intro j x hx hf
    rw [hfreed] at hf
    by_cases hj : j = i
    · subst hj
      obtain rfl := Obj.tcp.inj (Option.some.inj (ho.symm.trans hx))
      exact ⟨t', by rw [hmem, Function.update_self], hk hf⟩
    · exact ⟨x, by rw [hmem, Function.update_of_ne hj]; exact hx, Tcp.Keeps.refl x⟩

theorem update {x : Option Obj} (hx : ∀ t, s.mem i ≠ some (.tcp t))
    (hx' : ∀ t, x = some (.tcp t) → ∀ k, t.on k = none)
    (hmem : s'.mem = Function.update s.mem i x) (hfreed : s'.freed = s.freed) : s.TcpKept s' where
  freed := fun hf ↦ hfreed ▸ hf
  new := by
    intro j y hy _
    by_cases hj : j = i
    · subst hj
      rw [hmem, Function.update_self] at hy
      exact .inl (hx' y hy)
    · rw [hmem, Function.update_of_ne hj] at hy
      exact .inr ⟨y, hy, Tcp.Keeps.refl y⟩
  old := by
    intro j y hy _
    have hj : j ≠ i := by
      rintro rfl
      exact hx y hy
    exact ⟨y, by rw [hmem, Function.update_of_ne hj]; exact hy, Tcp.Keeps.refl y⟩

theorem other {o o' : Obj} (ho : s.mem i = some o)
    (hmem : s'.mem = Function.update s.mem i (some o')) (hfreed : s'.freed = s.freed)
    (hne : o.type ≠ .tcp) (hne' : o'.type ≠ .tcp) : s.TcpKept s' := by
  refine .update (fun t ht ↦ ?_) (fun t ht ↦ ?_) hmem hfreed
  · rw [Option.some.inj (ho.symm.trans ht)] at hne
    exact absurd rfl hne
  · rw [Option.some.inj ht] at hne'
    exact absurd rfl hne'

theorem eventFree (o : Obj) : s.TcpKept (s.eventFree i o) := by
  have hfreed : ∀ j, (s.eventFree i o).freed j = false → j ≠ i ∧ s.freed j = false := by
    intro j hj
    have hj : Function.update s.freed i true j = false := hj
    rw [Function.update_apply] at hj
    split at hj
    · cases hj
    · next hne => exact ⟨hne, hj⟩
  have hmem : ∀ j, j ≠ i → (s.eventFree i o).mem j = s.mem j := by
    intro j hj
    rw [Local.eventFree_mem, Function.update_of_ne hj]
  refine ⟨fun hf ↦ (hfreed _ hf).2, fun {j y} hy hf ↦ ?_, fun {j x} hx hf ↦ ?_⟩
  · rw [hmem j (hfreed j hf).1] at hy
    exact .inr ⟨y, hy, Tcp.Keeps.refl y⟩
  · exact ⟨x, by rw [hmem j (hfreed j hf).1]; exact hx, Tcp.Keeps.refl x⟩

theorem swept {gone relisted : List ℕ} (hs : s.Swept gone relisted s')
    (hgone : ∀ j ∈ gone, s.freed j = true) : s.TcpKept s' := by
  have hfreed : s'.freed = s.freed := by rw [hs.eq]
  have hlink : ∀ {j}, s'.freed j = false →
      ∃ n, s'.mem j = (s.mem j).map fun o ↦ o.withNext n := by
    intro j hf
    refine hs.links j fun hj ↦ ?_
    rw [hfreed, hgone j hj] at hf
    cases hf
  refine ⟨fun hf ↦ hfreed ▸ hf, fun {j y} hy hf ↦ ?_, fun {j x} hx hf ↦ ?_⟩
  · obtain ⟨n, hn⟩ := hlink hf
    obtain ⟨o, ho, hoy⟩ := Option.map_eq_some_iff.mp (hn.symm.trans hy)
    cases o with
    | tcp x =>
      obtain rfl := Obj.tcp.inj hoy
      exact .inr ⟨x, ho, fun k ↦ by cases k <;> exact ⟨rfl, fun _ ↦ rfl⟩⟩
    | udp | async => cases hoy
  · obtain ⟨n, hn⟩ := hlink hf
    rw [hx] at hn
    exact ⟨_, hn, fun k ↦ by cases k <;> exact ⟨rfl, fun _ ↦ rfl⟩⟩

end TcpKept

/-! ## The ledger is kept -/

theorem tcpCalls_of_tcp {cs : List Call}
    (h : s'.calls = s.calls ++ cs.map fun c ↦ ⟨.tcp, i, s.freed i, c⟩) :
    s'.tcpCalls = s.tcpCalls ++ cs.map fun c ↦ ⟨.tcp, i, s.freed i, c⟩ := by
  rw [tcpCalls, h, List.filter_append, tcpCalls]
  congr 1
  refine List.filter_eq_self.mpr fun c hc ↦ ?_
  obtain ⟨x, -, rfl⟩ := List.mem_map.mp hc
  rfl

theorem tcpCalls_of_ne {type : EventType} {cs : List Call} (hne : type ≠ .tcp)
    (h : s'.calls = s.calls ++ cs.map fun c ↦ ⟨type, i, s.freed i, c⟩) :
    s'.tcpCalls = s.tcpCalls := by
  rw [tcpCalls, h, List.filter_append, tcpCalls]
  refine (congrArg _ (List.filter_eq_nil_iff.mpr fun c hc ↦ ?_)).trans (List.append_nil _)
  obtain ⟨x, -, rfl⟩ := List.mem_map.mp hc
  simpa using hne

theorem tcpCalls_congr (h : s'.calls = s.calls) : s'.tcpCalls = s.tcpCalls := by
  rw [tcpCalls, h, tcpCalls]

theorem Ledger.handover {cs : List Call} (h : s.Ledger) (hw : s.Wf)
    (ho : s.mem i = some (.tcp t)) (hand : t.Handover t' cs)
    (hmem : s'.mem = Function.update s.mem i (some (.tcp t'))) (hfreed : s'.freed = s.freed)
    (hops : s'.ops = s.ops) (hn : s.nextOp ≤ s'.nextOp)
    (hcalls : s'.calls = s.calls ++ cs.map fun c ↦ ⟨.tcp, i, s.freed i, c⟩) : s'.Ledger := by
  have hdel : t.deleted = s.freed i := hw.memory.deleted ho
  have hcalls := tcpCalls_of_tcp hcalls
  cases hand with
  | kept hk =>
    exact h.quiet (.put ho (fun _ ↦ hk) hmem hfreed) hops hn (hcalls.trans (List.append_nil _))
  | called hlive hc => exact h.serve ho (hdel.symm.trans hlive) hc hmem hfreed hops hn hcalls
  | dropped hdeleted =>
    refine h.quiet (.put ho (fun hf ↦ ?_) hmem hfreed) hops hn (hcalls.trans (List.append_nil _))
    rw [← hdel, hdeleted] at hf
    cases hf

theorem Ledger.tcpCall {c : TcpCall} {sys : Sys} (h : s.Ledger) (ho : s.mem i = some (.tcp t))
    (hf : s.freed i = false)
    (hstart : Tcp.Started t (c.run t s.nextOp sys s.fresh).1 s.nextOp c
      (c.run t s.nextOp sys s.fresh).2.2)
    (hnil : (c.run t s.nextOp sys s.fresh).2.1.filterMap IoEffect.call? = []) :
    (s.tcpCall i t c sys).Ledger := by
  have hcalls : (s.tcpCall i t c sys).tcpCalls = s.tcpCalls := by
    refine tcpCalls_congr ?_
    show s.calls ++ (List.filterMap IoEffect.call? (c.run t s.nextOp sys s.fresh).2.1).map _ = _
    rw [hnil, List.map_nil, List.append_nil]
  unfold IoLoop.tcpCall at hcalls ⊢
  rcases hrun : c.run t s.nextOp sys s.fresh with ⟨t', effects, ret⟩
  rw [hrun] at hstart hcalls
  cases hstart with
  | success hret hop hidle hon hbuf hothers =>
    refine h.start ho hf hidle hon hbuf hothers rfl rfl ?_ rfl hcalls
    dsimp only at hret
    simp only [hop, hret]
  | failed hret hkept =>
    have hk : s.TcpKept ((s.perform .tcp i effects).put i (.tcp t')) :=
      .put ho (fun _ ↦ hkept) rfl rfl
    cases hop : c.op? with
    | none =>
      exact h.quiet ⟨hk.freed, hk.new, hk.old⟩ rfl (Nat.le_succ _) hcalls
    | some p =>
      have hne : ret ≠ .success := fun hs ↦ by simpa [hop] using hret hs
      exact (h.record (p := ⟨i, p.1, p.2, ret⟩) hne).quiet ⟨hk.freed, hk.new, hk.old⟩
        rfl le_rfl hcalls

theorem Ledger.dispatchTcp {d : Dir} {rest : List (ℕ × Dir)} {sys : Sys} (h : s.Ledger)
    (hw : s.Wf) (hok : s.TcpInv TcpView.Ok) (hb : s.batch = (i, d) :: rest)
    (ho : s.mem i = some (.tcp t)) : (s.dispatchTcp i t d rest sys).Ledger := by
  have hout : Tcp.DispatchOutcome t d sys s.fresh _ _ _ := Tcp.dispatch_outcome d
  unfold IoLoop.dispatchTcp
  rcases hcb : t.tcpProactorCallback d sys s.fresh with ⟨t', client, effects⟩
  rw [hcb] at hout
  have hhand := (hok i t ho).dispatch_handover (batched_pos hb) hout
  have hl : Ledger { ((s.deliver i d rest).perform .tcp i effects).put i (.tcp t') with
      phase := if invokes effects then .ioCallback else .dispatching } :=
    h.handover hw ho hhand rfl rfl rfl le_rfl rfl
  cases client with
  | none => exact hl
  | some c =>
    obtain ⟨u, fd, rfl⟩ := hout.client_eq rfl
    refine hl.quiet (.update (i := s.nextEvent) (fun x hx ↦ ?_) (fun x hx k ↦ ?_) rfl rfl)
      rfl le_rfl
      rfl
    · have hne : s.nextEvent ≠ i := (hw.memory.lt ho).ne'
      rw [put_mem, Function.update_of_ne hne] at hx
      exact absurd ((hw.memory.mem_lt le_rfl).symm.trans hx) nofun
    · obtain rfl := Obj.tcp.inj (Option.some.inj hx)
      cases k <;> rfl

/-- The ledger is kept by every step, for a client that does not open sockets on events in the error
state. -/
theorem Steps.ledger {a : Action} (hstep : s.Steps a s') (hw : s.Wf)
    (hok : s.TcpInv TcpView.Ok) (ha : s.noReconnect a = true) (h : s.Ledger) : s'.Ledger := by
  cases hstep with
  | @new type hp =>
    refine h.quiet (.update (i := s.nextEvent) (fun t ht ↦ ?_) (fun t ht k ↦ ?_) rfl rfl) rfl le_rfl
      rfl
    · exact absurd ((hw.memory.mem_lt le_rfl).symm.trans ht) nofun
    · cases type <;> cases ht
      cases k <;> rfl
  | @free i o ho hf hp =>
    obtain ⟨hops, hn, hcalls⟩ : (s.eventFree i o).ops = s.ops ∧
        (s.eventFree i o).nextOp = s.nextOp ∧ (s.eventFree i o).calls = s.calls := by
      unfold eventFree freeProactor
      dsimp only
      split <;> exact ⟨rfl, rfl, rfl⟩
    exact h.quiet (.eventFree o) hops hn.ge (tcpCalls_congr hcalls)
  | @tcp i t c sys ho hf hp hk =>
    have hout : Tcp.CallOutcome t s.nextOp sys s.fresh c _ _ _ := Tcp.run_outcome c
    have hopen : TcpAct.noReconnect _ (.call c sys) := noReconnect_does ha ho rfl
    exact h.tcpCall ho hf
      ((hok i t ho).started ((hw.memory.deleted ho).trans hf) hopen hout) hout.call_eq_nil
  | udp ho hf hp hk | asyncStart ho hf hp =>
    exact h.quiet (.other ho rfl rfl nofun nofun) rfl
      (Nat.le_succ _) (tcpCalls_of_ne (by decide) rfl)
  | asyncSend ho hf hstarted | offerUdp hp ho hk | offerAsync hp ho hk hd =>
    exact h.quiet (.other ho rfl rfl nofun nofun) rfl le_rfl rfl
  | @timeoutFires i t d sys ho hp hactive =>
    exact h.handover hw ho ((hok i t ho).timeout_handover hactive (Tcp.timeout_outcome d)) rfl rfl
      rfl le_rfl rfl
  | processEndgame hp hs =>
    obtain ⟨l, hl⟩ := hw.memory.endgame
    obtain ⟨x, hx, -, hswept⟩ := hw.memory.processEndgame hl
    obtain rfl := Option.some.inj (hs.symm.trans hx)
    have hk := TcpKept.swept hswept fun j hj ↦ by
      obtain ⟨o, ho, hdel⟩ := hl.deleted j (List.mem_filter.mp hj).1
      exact (hw.memory.deleted ho).symm.trans hdel
    exact h.quiet ⟨hk.freed, hk.new, hk.old⟩ (by rw [hswept.eq]) (by rw [hswept.eq])
      (tcpCalls_congr (by rw [hswept.eq]))
  | @offerTcp i t d sys reported offers hp ho hk =>
    have hout : Tcp.OfferOutcome t d sys s.fresh _ _ _ := Tcp.offer_outcome hk
    exact h.handover hw ho (.kept ((hok i t ho).offer_keeps hout)) rfl rfl rfl le_rfl (by
      show s.calls ++ (List.filterMap IoEffect.call? (t.reactorCb d sys s.fresh).2.2).map _ = _
      rw [hout.call_eq_nil])
  | dispatchTcp hp hb ho => exact h.dispatchTcp hw hok hb ho
  | dispatchUdp hp hb ho | dispatchAsync hp hb ho =>
    exact h.quiet (.other ho rfl rfl nofun nofun) rfl le_rfl
      (tcpCalls_of_ne (by decide) rfl)
  | _ => exact h.quiet (.of_mem rfl rfl) rfl le_rfl rfl

/-! ## At most one completion -/

/-- In a loop whose client does not open sockets on events in the error state. -/
theorem invariants_of_noReconnect
    (h : Reachable step (fun s a ↦ s.noReconnect a = true) init s) :
    s.Wf ∧ s.TcpInv TcpView.Ok ∧ s.Ledger := by
  refine h.invariant (I := fun s ↦ s.Wf ∧ s.TcpInv TcpView.Ok ∧ s.Ledger)
    ⟨init_wf, init_tcpInv _, init_ledger⟩ ?_
  rintro s a s' ⟨hw, hok, hl⟩ ha hstep
  have hsteps := step_eq_some hstep
  exact ⟨hsteps.wf hw, tcpOk_step hok hw hstep ha, hsteps.ledger hw hok ha hl⟩

/-- The completions of TCP operations: the callback of a start call is invoked at most once; every
invocation is for a start call that was successful, on an event that has not been freed, with the
buffer of that call and a length that fits into it; and no two operations of one direction are
pending on an event. -/
structure CompletesOnce (s : IoLoop) : Prop where
  once : ∀ o, s.served.count o ≤ 1
  rightful : ∀ c ∈ s.tcpCalls, ∃ p, s.Rightful c p
  single : ∀ o o' p p', s.Pending o p → s.Pending o' p' → p.event = p'.event →
    p.kind.dir = p'.kind.dir → o = o'

/-- **TCP operations complete at most once**, in every run of a client that does not call connect or
listen on an event in the error state. -/
theorem completesOnce_of_noReconnect
    (h : Reachable step (fun s a ↦ s.noReconnect a = true) init s) : s.CompletesOnce := by
  obtain ⟨-, -, hl⟩ := invariants_of_noReconnect h
  exact ⟨fun o ↦ List.nodup_iff_count_le_one.mp hl.nodup o, fun _ hc ↦ hl.rightful hc,
    fun _ _ _ _ hp hp' ↦ hl.single hp hp'⟩

/-- A connection is made, and in its callback a write and a read are started: the write is done at
once, the read when the socket becomes readable. -/
def connectWriteRead : List Action :=
  [.new .tcp, .tcp 0 (.connect true (some ⟨5, 0⟩) true) { Sys.ok 0 with connect := .inProgress },
    .runEnter, .processEndgame, .epollWait, .report 0 .writable,
    .offer { Sys.ok 0 with io := .wouldBlock }, .pollReturn, .dispatch (.ok 0),
    .tcp 0 (.write ⟨4, 8⟩ none true) (.ok 2), .tcp 0 (.read ⟨9, 16⟩ none true) (.ok 0),
    .tcp 0 (.read ⟨9, 32⟩ none true) (.ok 0), .callbackReturn, .nextRound, .processEndgame,
    .takeQueued, .dispatch (.ok 0), .callbackReturn, .nextRound, .processEndgame, .epollWait,
    .report 0 .readable, .offer (.ok 7), .pollReturn, .dispatch (.ok 0)]

theorem completesOnce_of_noReconnect_connectWriteRead :
    ∃ s, exec step (fun s a ↦ s.noReconnect a = true) init connectWriteRead = some s ∧
      s.tcpCalls.map CallRecord.call =
        [⟨0, 0, 0, 0, none⟩, ⟨1, 0, 8, 2, none⟩, ⟨2, 0, 16, 7, none⟩] ∧ s.CompletesOnce := by
  have hrun : ((exec step (fun s a ↦ s.noReconnect a = true) init connectWriteRead).map
      fun s ↦ s.tcpCalls.map CallRecord.call) =
      some [⟨0, 0, 0, 0, none⟩, ⟨1, 0, 8, 2, none⟩, ⟨2, 0, 16, 7, none⟩] := by decide +kernel
  obtain ⟨s, hs, hcalls⟩ := Option.map_eq_some_iff.mp hrun
  exact ⟨s, hs, hcalls, completesOnce_of_noReconnect (Reachable.of_exec hs)⟩

end IoLoop

end Nanoev
