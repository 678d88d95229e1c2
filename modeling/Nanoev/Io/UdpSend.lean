import Nanoev.Io.UdpCompletion

/-!
# Sending a datagram

A write of a UDP event is tried at once by `nanoev_udp_write`, and again by `reactor_cb` when the
socket becomes writable. The second attempt reads the buffer, the address and the choice between
`send` and `sendto` from the event, at a time when the client may have made any number of other
calls.

This module is about one event: what a call that comes to `send` or `sendto` stores, and that no
other call changes what is stored while a write is pending. Another write and `nanoev_udp_connect`
are denied then, `nanoev_udp_bind` is denied because there is a socket, and the remaining functions
do not touch these fields.
-/

namespace Nanoev

/-- A call of `send`, or of `sendto` with an address, for a UDP event: the operation that it is made
for, the descriptor, whether the event is connected, and the family whose address length is
passed. -/
structure KernelSend where
  event : ℕ
  op : Option ℕ
  fd : Option ℕ
  connected : Bool
  family : ℕ
  buf : IoBuf
  dest : Option Addr
  result : IoResult
deriving DecidableEq, Repr

/-- A call of `nanoev_udp_write` that has returned success, with its arguments. -/
structure UdpWrite where
  op : ℕ
  event : ℕ
  buf : IoBuf
  toAddr : Option Addr
deriving DecidableEq, Repr

inductive UdpRecord
  | sent (x : KernelSend)
  | started (w : UdpWrite)
deriving DecidableEq, Repr

def IoResult.positive : IoResult → Bool
  | done n => decide (0 < n)
  | _ => false

/-- The call has sent `n` bytes for `w`: with its buffer, on an open socket, to its address by
`sendto`, or to the peer of a connected event by `send`. -/
structure KernelSend.Serves (x : KernelSend) (w : UdpWrite) (n : ℕ) : Prop where
  op : x.op = some w.op
  event : x.event = w.event
  buf : x.buf = w.buf
  dest : x.dest = w.toAddr
  opened : x.fd ≠ none
  family : ∀ a, x.dest = some a → x.family = a.family
  connected : x.dest = none → x.connected = true
  result : x.result = .done n

namespace UdpRecord

variable {o : ℕ} {l new : List UdpRecord} {x : KernelSend}

/-- The call, if it was made for operation `o` and has sent something. -/
def positive? (o : ℕ) : UdpRecord → Option KernelSend
  | sent x => if x.op = some o ∧ x.result.positive = true then some x else none
  | started _ => none

/-- The calls for operation `o` that have sent something. -/
def sends (o : ℕ) (l : List UdpRecord) : List KernelSend := l.filterMap (positive? o)

theorem sends_append : sends o (l ++ new) = sends o l ++ sends o new := List.filterMap_append

theorem sends_eq_nil (h : ∀ x, sent x ∈ l → x.op = some o → x.result.positive = false) :
    sends o l = [] := by
  refine List.filterMap_eq_nil_iff.mpr fun r hr ↦ ?_
  cases r with
  | started w => rfl
  | sent x =>
    refine if_neg fun hx ↦ ?_
    rw [h x hr hx.1] at hx
    exact Bool.false_ne_true hx.2

theorem sends_append_of_ne (h : ∀ x, sent x ∈ new → x.op ≠ some o) :
    sends o (l ++ new) = sends o l := by
  rw [sends_append, sends_eq_nil fun x hx hop ↦ absurd hop (h x hx), List.append_nil]

end UdpRecord

open UdpRecord

/-! ## One event -/

namespace Udp

variable {u u' x : Udp} {op : ℕ} {sys : Sys} {fresh : Fresh} {b : IoBuf} {a : Option Addr}
  {callback : Option ℕ} {c : UdpCall} {l : List UdpRecord}

/-- Where `reactor_cb` sends: to an address, or to the peer that the socket is connected to. -/
def dest (u : Udp) : Option Addr := if u.writeConnected then none else some u.toAddr

def buf (u : Udp) : Dir → IoBuf
  | .read => u.bufRead
  | .write => u.bufWrite

/-- The event when `nanoev_udp_write` comes to `send` or `sendto`, if it does. -/
def sendingAs (u : Udp) (b : IoBuf) (toAddr : Option Addr) (callback : Option ℕ) (sys : Sys)
    (fresh : Fresh) : Option Udp :=
  if b.buf = 0 ∨ b.len = 0 ∨ callback = none then none
  else if toAddr = none ∧ u.connected = false then none
  else if u.error ∨ u.deleted ∨ u.writing then none
  else
    match u.openUdpSocket ((toAddr.map Addr.family).getD 0) sys fresh with
    | (_, _, some _) => none
    | (u, _, none) => if toAddr.any fun a ↦ a.family ≠ u.family then none else some u

structure SameWrite (u u' : Udp) : Prop where
  onWrite : u'.onWrite = u.onWrite
  bufWrite : u'.bufWrite = u.bufWrite
  dest : u'.dest = u.dest
  ctxWrite : u'.ctxWrite = u.ctxWrite
  connected : u.connected = true → u'.connected = true
  /-- The socket stays open, unless the event is freed, and keeps its family. -/
  live : u'.deleted = false →
    u.deleted = false ∧ (u.sock ≠ none → u'.sock ≠ none ∧ u'.family = u.family)

theorem SameWrite.of_fields (hon : u'.onWrite = u.onWrite) (hbuf : u'.bufWrite = u.bufWrite)
    (hdest : u'.dest = u.dest) (hctx : u'.ctxWrite = u.ctxWrite)
    (hconnected : u'.connected = u.connected) (hdel : u'.deleted = u.deleted)
    (hsock : u'.sock = u.sock) (hfamily : u'.family = u.family) : u.SameWrite u' where
  onWrite := hon
  bufWrite := hbuf
  dest := hdest
  ctxWrite := hctx
  connected := hconnected.trans
  live := fun hlive ↦ ⟨hdel.symm.trans hlive, fun hopen ↦ ⟨hsock.trans_ne hopen, hfamily⟩⟩

theorem SameWrite.refl (u : Udp) : u.SameWrite u := .of_fields rfl rfl rfl rfl rfl rfl rfl rfl

/-! ### Calls -/

theorem openUdpSocket_of_sock (hopen : u.sock ≠ none) (family : ℕ) :
    u.openUdpSocket family sys fresh = (u, [], none) := if_neg hopen

theorem openUdpSocket_sock {family : ℕ} {effects : List IoEffect}
    (h : u.openUdpSocket family sys fresh = (x, effects, none)) : x.sock ≠ none := by
  unfold openUdpSocket at h
  split at h
  · unfold createUdpSocket at h
    cases hsocket : sys.socket with
    | some e => simp [hsocket] at h
    | none =>
      cases hcloexec : sys.closeOnExec with
      | some e => simp [hsocket, hcloexec] at h
      | none =>
        cases hblocking : sys.nonBlocking with
        | some e => simp [hsocket, hcloexec, hblocking] at h
        | none =>
          obtain ⟨m, k, err, hmod, hreg⟩ := registerProactor_eq
            { u with family, sock := some ⟨fresh.fd, .empty⟩ } .evRead sys
          simp only [hsocket, hcloexec, hblocking, hreg] at h
          cases err with
          | some e => simp at h
          | none =>
            obtain ⟨rfl, -⟩ := Prod.mk.inj h
            exact fun hk ↦ nomatch (epollPollerModify_eq_none_iff hmod).mp hk
  · next hopen =>
    obtain ⟨rfl, -⟩ := Prod.mk.inj h
    exact hopen

theorem openUdpSocket_sameWrite (u : Udp) (family : ℕ) (sys : Sys) (fresh : Fresh) :
    u.SameWrite (u.openUdpSocket family sys fresh).1 ∧
      (u.openUdpSocket family sys fresh).1.connected = u.connected ∧
      ∀ rest d, submits ((u.openUdpSocket family sys fresh).2.1 ++ rest) d = submits rest d := by
  by_cases hopen : u.sock = none
  · obtain ⟨m, k, f, effects, err, hopening, heq⟩ :=
      openUdpSocket_eq (u := u) family sys fresh
    rw [heq]
    exact ⟨⟨rfl, rfl, rfl, rfl, id, fun hlive ↦ ⟨hlive, absurd hopen⟩⟩, rfl,
      hopening.submits_eq⟩
  · rw [openUdpSocket_of_sock hopen]
    exact ⟨.refl u, rfl, fun _ _ ↦ rfl⟩

theorem SameWrite.setError (h : u.SameWrite x) (e : ℤ) : u.SameWrite (x.setError e) :=
  ⟨h.onWrite, h.bufWrite, h.dest, h.ctxWrite, h.connected, h.live⟩

/-- What a call does that does not come to `send` or `sendto`: a pending write is left as it is, and
an event that is connected now was so before or has a socket. -/
structure Quiet (u : Udp) (r : Udp × List IoEffect × RetCode) : Prop where
  same : u.SameWrite r.1
  connected : r.1.connected = true → u.connected = true ∨ r.1.sock ≠ none
  submits : submits r.2.1 .write = 0

theorem Quiet.nothing (ret : RetCode) : u.Quiet (u, [], ret) := ⟨.refl u, .inl, rfl⟩

theorem Quiet.error (e : ℤ) (ret : RetCode) : u.Quiet (u.setError e, [], ret) :=
  ⟨(SameWrite.refl u).setError e, .inl, rfl⟩

/-- The socket is opened, and nothing more is done, or the event goes into the error state. -/
theorem Quiet.opening {effects : List IoEffect} {err : Option ℤ} (family : ℕ)
    (h : u.openUdpSocket family sys fresh = (x, effects, err)) (ret : RetCode) :
    u.Quiet (x, effects, ret) ∧ ∀ e, u.Quiet (x.setError e, effects, ret) := by
  obtain ⟨hsame, hconnected, hsubmits⟩ :=
    u.openUdpSocket_sameWrite family sys fresh
  rw [h] at hsame hconnected hsubmits
  have hzero : Nanoev.submits effects .write = 0 := by
    rw [← List.append_nil effects, hsubmits]
    rfl
  exact ⟨⟨hsame, fun hc ↦ .inl (hconnected.symm.trans hc), hzero⟩,
    fun e ↦ ⟨hsame.setError e, fun hc ↦ .inl (hconnected.symm.trans hc), hzero⟩⟩

theorem systemCall_quiet (refused : Bool) : u.Quiet (u.systemCall refused sys) := by
  unfold systemCall
  split
  · exact .nothing _
  · cases sys.other with
    | some e => exact .error _ _
    | none => exact .nothing _

theorem read_quiet : u.Quiet (u.nanoevUdpRead b callback) := by
  unfold nanoevUdpRead
  split
  · exact .nothing _
  · split
    · exact .nothing _
    · exact ⟨.of_fields rfl rfl rfl rfl rfl rfl rfl rfl, .inl, rfl⟩

theorem connect_quiet (peer : Option Addr) : u.Quiet (u.nanoevUdpConnect peer sys fresh) := by
  unfold nanoevUdpConnect
  cases peer with
  | none => exact .nothing _
  | some addr =>
    dsimp only
    split
    · exact .nothing _
    · split
      · exact .nothing _
      · rcases hopen : u.openUdpSocket addr.family sys fresh with ⟨x, effects, err⟩
        have hquiet := fun ret ↦ Quiet.opening addr.family hopen ret
        cases err with
        | some e => exact (hquiet _).2 _
        | none =>
          cases sys.other with
          | some e => exact (hquiet _).2 _
          | none =>
            obtain ⟨hsame, -, hsubmits⟩ := (hquiet .success).1
            have hsock : x.sock ≠ none := openUdpSocket_sock hopen
            exact ⟨⟨hsame.onWrite, hsame.bufWrite, hsame.dest, hsame.ctxWrite, fun _ ↦ rfl,
              hsame.live⟩, fun _ ↦ .inr hsock, hsubmits⟩

theorem bind_quiet (addr : Addr) : u.Quiet (u.nanoevUdpBind addr sys fresh) := by
  unfold nanoevUdpBind
  split
  · exact .nothing _
  · next hready =>
    have hsock : u.sock = none := by
      simp only [not_or, Option.not_isSome_iff_eq_none] at hready
      exact hready.1
    have hcreate : u.openUdpSocket addr.family sys fresh =
        u.createUdpSocket addr.family sys fresh := if_pos hsock
    rcases hopen : u.createUdpSocket addr.family sys fresh with ⟨x, effects, err⟩
    have hquiet := fun ret ↦ Quiet.opening addr.family (hcreate.trans hopen) ret
    cases err with
    | some e => exact (hquiet _).2 _
    | none =>
      cases sys.bind with
      | some e => exact (hquiet _).2 _
      | none => exact (hquiet _).1

theorem write_quiet (h : u.sendingAs b a callback sys fresh = none) :
    u.Quiet (u.nanoevUdpWrite b a callback sys fresh) ∧
      (u.nanoevUdpWrite b a callback sys fresh).2.2 ≠ .success := by
  unfold sendingAs at h
  unfold nanoevUdpWrite
  split
  · exact ⟨.nothing _, nofun⟩
  · next hargs =>
    rw [if_neg hargs] at h
    split
    · exact ⟨.nothing _, nofun⟩
    · next haddr =>
      rw [if_neg haddr] at h
      split
      · exact ⟨.nothing _, nofun⟩
      · next hready =>
        rw [if_neg hready] at h
        rcases hopen : u.openUdpSocket ((a.map Addr.family).getD 0) sys fresh with
          ⟨x, effects, err⟩
        have hquiet := fun ret ↦ Quiet.opening _ hopen ret
        rw [hopen] at h
        cases err with
        | some e => exact ⟨(hquiet _).2 _, nofun⟩
        | none =>
          dsimp only at h ⊢
          split
          · exact ⟨(hquiet _).1, nofun⟩
          · next hfamily =>
            rw [if_neg hfamily] at h
            cases h

theorem run_quiet (h : ∀ b a cb, c = .write b a cb →
      u.sendingAs b a (if cb then some op else none) sys fresh = none) :
    u.Quiet (c.run u op sys fresh) := by
  cases c with
  | read b cb => exact read_quiet
  | write b a cb => exact (write_quiet (h b a cb rfl)).1
  | connect peer => exact connect_quiet peer
  | bind addr => exact bind_quiet addr
  | addr present =>
    cases present with
    | true => exact systemCall_quiet _
    | false => exact .nothing _
  | setOption valid =>
    cases valid with
    | true => exact systemCall_quiet _
    | false => exact .nothing _

/-- The event when a write comes to `send` or `sendto`, and what follows. -/
structure Sending (u : Udp) (b : IoBuf) (a : Option Addr) (callback : Option ℕ) (sys : Sys)
    (fresh : Fresh) (x : Udp) : Prop where
  given : callback ≠ none
  idle : u.writing = false
  sock : x.sock ≠ none
  onWrite : x.onWrite = u.onWrite
  peer : a = none → x.connected = true
  family : ∀ addr, a = some addr → x.family = addr.family
  run : ∃ effects, (∀ rest d, submits (effects ++ rest) d = submits rest d) ∧
    u.nanoevUdpWrite b a callback sys fresh =
      ((x.startWrite b a callback sys).1, effects ++ (x.startWrite b a callback sys).2.1,
        (x.startWrite b a callback sys).2.2)

theorem sending_of_eq_some (h : u.sendingAs b a callback sys fresh = some x) :
    Sending u b a callback sys fresh x := by
  unfold sendingAs at h
  split at h
  · cases h
  next hargs =>
  split at h
  · cases h
  next haddr =>
  split at h
  · cases h
  next hready =>
  obtain ⟨hsame, hconnected, hsubmits⟩ :=
    u.openUdpSocket_sameWrite ((a.map Addr.family).getD 0) sys fresh
  rcases hopen : u.openUdpSocket ((a.map Addr.family).getD 0) sys fresh with ⟨y, effects, err⟩
  rw [hopen] at h hsame hconnected hsubmits
  cases err with
  | some e => cases h
  | none =>
    dsimp only at h
    split at h
    · cases h
    next hfamily =>
    obtain rfl := Option.some.inj h
    refine ⟨fun hnone ↦ hargs (.inr (.inr hnone)), ?_, openUdpSocket_sock hopen, hsame.onWrite,
      fun hnone ↦ ?_, ?_, effects, hsubmits, ?_⟩
    · exact Bool.eq_false_of_not_eq_true fun hw ↦ hready (.inr (.inr hw))
    · refine hconnected.trans (Bool.eq_true_of_not_eq_false fun hc ↦ ?_)
      exact haddr ⟨hnone, hc⟩
    · rintro addr rfl
      have hsame : addr.family = y.family := by simpa using hfamily
      exact hsame.symm
    · rw [nanoevUdpWrite, if_neg hargs, if_neg haddr, if_neg hready, hopen]
      dsimp only
      rw [if_neg hfamily]

structure Holds (u : Udp) (op : ℕ) (b : IoBuf) (a : Option Addr) : Prop where
  onWrite : u.onWrite = some op
  bufWrite : u.bufWrite = b
  dest : u.dest = a

inductive StartOutcome (x : Udp) (op : ℕ) (b : IoBuf) (a : Option Addr) (sys : Sys) (u' : Udp)
    (effects : List IoEffect) : RetCode → Prop
  | failed {ret} (hret : ret ≠ .success) (hon : u'.onWrite = x.onWrite) :
    StartOutcome x op b a sys u' effects ret
  | queued {n} (hio : sys.io = .done n) (hholds : u'.Holds op b a)
      (hctx : u'.ctxWrite = ⟨0, n⟩) (hsubmits : submits effects .write = 1) :
    StartOutcome x op b a sys u' effects .success
  | deferred (hio : sys.io = .wouldBlock) (hholds : u'.Holds op b a)
      (hsubmits : submits effects .write = 0) : StartOutcome x op b a sys u' effects .success

theorem dest_startWrite (u : Udp) (a : Option Addr) :
    (if a.isNone then none else some (a.getD u.toAddr)) = a := by
  cases a <;> rfl

theorem startWrite_spec (x : Udp) (b : IoBuf) (a : Option Addr) (op : ℕ) (sys : Sys) :
    let r := x.startWrite b a (some op) sys
    StartOutcome x op b a sys r.1 r.2.1 r.2.2 ∧ r.1.connected = x.connected ∧
      r.1.deleted = x.deleted ∧ r.1.family = x.family ∧ (x.sock ≠ none → r.1.sock ≠ none) := by
  unfold startWrite
  dsimp only
  cases hio : sys.io with
  | failed e => exact ⟨.failed nofun rfl, rfl, rfl, rfl, id⟩
  | done n =>
    dsimp only
    split
    · exact ⟨.queued hio ⟨rfl, rfl, dest_startWrite x a⟩ rfl rfl, rfl, rfl, rfl, id⟩
    · exact ⟨.failed nofun rfl, rfl, rfl, rfl, id⟩
  | wouldBlock =>
    obtain ⟨m, k, err, hmod, hreg⟩ := registerProactor_eq
      { x with
        bufWrite := b, ctxWrite := ⟨0, 0⟩, writeConnected := a.isNone, toAddr := a.getD x.toAddr }
      x.reactorEvents.orWrite sys
    simp only [hreg]
    have hsock : x.sock ≠ none → k ≠ none :=
      fun hopen hk ↦ hopen ((epollPollerModify_eq_none_iff hmod).mp hk)
    cases err with
    | some e => exact ⟨.failed nofun rfl, rfl, rfl, rfl, hsock⟩
    | none =>
      exact ⟨.deferred hio ⟨rfl, rfl, dest_startWrite x a⟩ (submits_assertEffect ..), rfl, rfl,
        rfl, hsock⟩

theorem run_cases (u : Udp) (op : ℕ) (sys : Sys) (fresh : Fresh) (c : UdpCall) :
    u.Quiet (c.run u op sys fresh) ∨
      ∃ b a x, c = .write b a true ∧ u.Sending b a (some op) sys fresh x := by
  by_cases hquiet : ∀ b a cb, c = .write b a cb →
      u.sendingAs b a (if cb then some op else none) sys fresh = none
  · exact .inl (run_quiet hquiet)
  · push Not at hquiet
    obtain ⟨b, a, cb, rfl, hsome⟩ := hquiet
    obtain ⟨x, hx⟩ := Option.ne_none_iff_exists'.mp hsome
    have hsending := sending_of_eq_some hx
    cases cb with
    | false => exact absurd rfl hsending.given
    | true => exact .inr ⟨b, a, x, rfl, hsending⟩

def ConnectedOpen (u : Udp) : Prop := u.deleted = false → u.connected = true → u.sock ≠ none

theorem ConnectedOpen.run (h : u.ConnectedOpen) (c : UdpCall) :
    (c.run u op sys fresh).1.ConnectedOpen := by
  intro hlive hconnected
  rcases u.run_cases op sys fresh c with hquiet | ⟨b, a, x, rfl, hsending⟩
  · obtain ⟨hlive', hsock⟩ := hquiet.same.live hlive
    rcases hquiet.connected hconnected with hbefore | hopen
    · exact (hsock (h hlive' hbefore)).1
    · exact hopen
  · obtain ⟨effects, -, hrun⟩ := hsending.run
    have hrun : UdpCall.run (.write b a true) u op sys fresh = _ := hrun
    rw [hrun]
    exact (startWrite_spec x b a op sys).2.2.2.2 hsending.sock

/-! ### Completions and readiness -/

theorem udpProactorCallback_effects (u : Udp) (d : Dir) (sys : Sys) :
    (u.udpProactorCallback d sys).2 = assertEffect (u.flag d) ++
      callAsserted (u.on d) u.deleted (u.ctx d).status (u.buf d).buf (u.ctx d).bytes := by
  unfold udpProactorCallback
  cases d with
  | read | write =>
    dsimp only
    split <;> rfl

/-- How far the pending write `o` of event `i` is: `n` is the number of completions on the way. -/
def Sent (l : List UdpRecord) (i : ℕ) (u : Udp) (n o : ℕ) : Prop :=
  if 0 < n ∧ u.ctxWrite.status = 0 then
    0 < u.ctxWrite.bytes ∧ ∃ x, sends o l = [x] ∧
      x.Serves ⟨o, i, u.bufWrite, u.dest⟩ u.ctxWrite.bytes
  else sends o l = []

theorem SameWrite.sent {i n o : ℕ} {l' : List UdpRecord} (h : u.SameWrite u') (hs : u.Sent l i n o)
    (hl : sends o l' = sends o l) : u'.Sent l' i n o := by
  rw [Sent, h.ctxWrite, h.bufWrite, h.dest, hl]
  exact hs

theorem reactorCb_write (u : Udp) (sys : Sys) :
    u.reactorCb .write sys = match sys.io with
      | .done n => ({ u with ctxWrite := ⟨0, n⟩ }, true)
      | .wouldBlock => (u, false)
      | .failed e => ({ u with ctxWrite := ⟨e.1, 0⟩ }, true) := by
  unfold reactorCb
  cases sys.io <;> rfl

theorem reactorCbRead_sameWrite : u.SameWrite (u.reactorCb .read sys).1 := by
  unfold reactorCb
  cases sys.io with
  | done n | failed e => exact .of_fields rfl rfl rfl rfl rfl rfl rfl rfl
  | wouldBlock => exact .refl u

theorem dispatchRead_sameWrite : u.SameWrite (u.udpProactorCallback .read sys).1 := by
  unfold udpProactorCallback
  dsimp only
  split
  · exact .of_fields rfl rfl rfl rfl rfl rfl rfl rfl
  · exact .of_fields rfl rfl rfl rfl rfl rfl rfl rfl

end Udp

end Nanoev
