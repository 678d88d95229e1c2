import Nanoev.Io.TcpLoop
import Nanoev.Io.UdpLoop

/-!
# Events that are freed while an operation is pending

`tcp_free` and `udp_free` put an event with a pending operation on the list of deferred deletions,
to be released after a completion has cleared its flags. They close the socket first. After that no
readiness is reported any more, and the timeouts of a TCP event are deleted too, so only a
completion that is already in the queue or in the batch can clear a flag.

In a run in which every event that is freed has such a completion for each of its flags, each event
on the list has one in every state, until the flag is cleared.
-/

namespace Nanoev

open Transition

/-! ## TCP events -/

/-- Each flag of a deleted event has a completion on the way. -/
def TcpView.Triggered (v : TcpView) : Prop :=
  v.t.deleted = true → ∀ d, v.t.flag d = true → 0 < v.queued d + v.batched d

/-- The condition on freeing a TCP event, and on the client. -/
def TcpAct.triggerable (v : TcpView) : TcpAct → Prop
  | .call c _ => Tcp.opens c = true → v.t.error = false
  | .free => ∀ d, v.t.flag d = true → 0 < v.queued d + v.batched d
  | _ => True

theorem TcpAct.triggerable.noReconnect {v : TcpView} {a : TcpAct} (h : a.triggerable v) :
    a.noReconnect v := by
  cases a with
  | call c sys => exact h
  | _ => trivial

theorem TcpView.Ok.dispatch_flag {v : TcpView} {d e : Dir} {sys : Sys} {fresh : Fresh} {t' : Tcp}
    {client : Option Tcp} {effects : List IoEffect} (h : v.Ok) (hbatch : 0 < v.batched d)
    (ho : Tcp.DispatchOutcome v.t d sys fresh t' client effects) (he : t'.flag e = true) :
    e ≠ d ∧ v.t.flag e = true := by
  obtain ⟨hflag, -⟩ := h.completed hbatch
  cases ho with
  | readDone hn hd =>
    subst hd
    cases e with
    | read => cases he
    | write => exact ⟨by decide, he⟩
  | writeDone hn hd =>
    subst hd
    cases e with
    | read => exact ⟨by decide, he⟩
    | write => cases he
  | acceptDone hn hconnected hlistening | acceptDropped hn hconnected hlistening =>
    obtain rfl := h.eq_read_of_listening hflag hconnected hlistening
    cases e with
    | read => cases he
    | write => exact ⟨by decide, he⟩
  | connectDone hn hconnected hlistening | connectFailed hn hconnected hlistening =>
    obtain rfl := h.eq_write_of_not_listening hflag hconnected hlistening
    cases e with
    | read => exact ⟨by decide, he⟩
    | write => cases he
  | readStale hn hd hconnected hlost =>
    subst hd
    exact (h.read.not_stale hflag hconnected hlost).elim
  | writeStale hn hd hconnected hlost =>
    subst hd
    exact (h.write.not_stale hflag hconnected hlost).elim
  | acceptStale hn hconnected hlistening hlost =>
    obtain rfl := h.eq_read_of_listening hflag hconnected hlistening
    exact (h.read.not_staleConn hflag hconnected hlost).elim
  | connectStale hn hconnected hlistening hlost =>
    obtain rfl := h.eq_write_of_not_listening hflag hconnected hlistening
    exact (h.write.not_staleConn hflag hconnected hlost).elim

theorem Tcp.TimeoutOutcome.flag {t t' : Tcp} {d e : Dir} {sys : Sys} {effects : List IoEffect}
    (h : TimeoutOutcome t d sys t' effects) (he : t'.flag e = true) : t.flag e = true := by
  cases h <;> cases e <;> first | exact he | cases he

theorem Tcp.OfferOutcome.flag {t t' : Tcp} {d e : Dir} {sys : Sys} {fresh : Fresh}
    {completed : Bool} {effects : List IoEffect}
    (h : OfferOutcome t d sys fresh t' completed effects) (he : t'.flag e = true) :
    t.flag e = true := by
  cases h <;> exact he

theorem TcpStep.triggered {v v' : TcpView} {a : TcpAct} (hstep : TcpStep v a v') (hok : v.Ok)
    (h : v.Triggered) (ha : a.triggerable v) : v'.Triggered := by
  cases hstep with
  | call hlive hkernel hc =>
    intro hdel
    exact absurd ((hc.kept.deleted.symm.trans hdel).symm.trans hlive) (by decide)
  | timeout hactive hbatch ho =>
    exact fun hdel e he ↦ h (ho.kept.deleted.symm.trans hdel) e (ho.flag he)
  | @offer d sys fresh t' completed effects hnone ho =>
    intro hdel e he
    have hpos := h (ho.kept.deleted.symm.trans hdel) e (ho.flag he)
    refine hpos.trans_le (Nat.add_le_add_left ?_ _)
    dsimp only
    rw [Function.update_apply]
    split
    · next heq => rw [heq]; omega
    · exact le_rfl
  | dispatch hbatch ho =>
    intro hdel e he
    obtain ⟨hne, hflag⟩ := hok.dispatch_flag hbatch ho he
    dsimp only
    rw [Function.update_of_ne hne]
    exact h (ho.kept.deleted.symm.trans hdel) e hflag
  | free hlive hpending =>
    intro _ e he
    cases e with
    | read => exact ha .read he
    | write => exact ha .write he
  | link => exact fun hdel e he ↦ h hdel e he
  | poll hbatch hmoved =>
    intro hdel e he
    have hpos := h hdel e he
    rw [hbatch e] at hpos
    dsimp only
    rw [hmoved e]
    exact hpos

/-! ## UDP events -/

/-- Each flag of a deleted event has a completion on the way. -/
def UdpView.Triggered (v : UdpView) : Prop :=
  v.u.deleted = true → ∀ d, v.u.flag d = true → 0 < v.queued d + v.batched d

def UdpAct.triggerable (v : UdpView) : UdpAct → Prop
  | .free => ∀ d, v.u.flag d = true → 0 < v.queued d + v.batched d
  | _ => True

theorem UdpStep.triggered {v v' : UdpView} {a : UdpAct} (hstep : UdpStep v a v')
    (h : v.Triggered) (ha : a.triggerable v) : v'.Triggered := by
  cases hstep with
  | call hlive hc =>
    intro hdel
    exact absurd ((hc.kept.deleted.symm.trans hdel).symm.trans hlive) (by decide)
  | @offer d cr cw completed hnone =>
    intro hdel e he
    refine (h hdel e he).trans_le (Nat.add_le_add_left ?_ _)
    dsimp only
    rw [Function.update_apply]
    split
    · next heq => rw [heq]; omega
    · exact le_rfl
  | @dispatch d sys u' effects hbatch ho =>
    intro hdel e he
    have hold : e ≠ d ∧ v.u.deleted = true ∧ v.u.flag e = true := by
      cases ho <;> cases e <;> first | exact ⟨by decide, hdel, he⟩ | cases he
    dsimp only
    rw [Function.update_of_ne hold.1]
    exact h hold.2.1 e hold.2.2
  | free hlive =>
    intro _ e he
    cases e with
    | read => exact ha .read he
    | write => exact ha .write he
  | link => exact fun hdel e he ↦ h hdel e he
  | poll hbatch hmoved =>
    intro hdel e he
    have hpos := h hdel e he
    rw [hbatch e] at hpos
    dsimp only
    rw [hmoved e]
    exact hpos

/-! ## The loop -/

namespace IoLoop

/-- Each flag of an event has a completion in the queue or in the batch. -/
def completes (s : IoLoop) (i : ℕ) (o : Obj) : Bool :=
  [Dir.read, .write].all fun d ↦ !o.proactor.flag d || (s.queue ++ s.batch).contains (i, d)

/-- A TCP or UDP event that is freed has a completion on the way for each of its flags. -/
def freesCompleted (s : IoLoop) : Action → Bool
  | .free i =>
    match s.mem i with
    | some o => decide (o.type = .async) || s.completes i o
    | none => true
  | _ => true

variable {s s' : IoLoop} {a : Action} {i : ℕ}

theorem completes_iff {o : Obj} : s.completes i o = true ↔
    ∀ d, o.proactor.flag d = true → (i, d) ∈ s.queue ++ s.batch := by
  simp only [completes, List.all_cons, List.all_nil, Bool.and_true, Bool.and_eq_true,
    Bool.or_eq_true, Bool.not_eq_true', List.contains_iff_mem]
  constructor
  · rintro ⟨hr, hw⟩ d hd
    cases d with
    | read => exact hr.resolve_left (by rw [hd]; decide)
    | write => exact hw.resolve_left (by rw [hd]; decide)
  · intro h
    refine ⟨?_, ?_⟩
    · exact (Bool.eq_false_or_eq_true _).symm.imp_right (h .read)
    · exact (Bool.eq_false_or_eq_true _).symm.imp_right (h .write)

theorem freesCompleted_free {o : Obj} (h : s.freesCompleted (.free i) = true)
    (ho : s.mem i = some o) (htype : o.type ≠ .async) (d : Dir) (hd : o.proactor.flag d = true) :
    0 < s.queued i d + s.batched i d := by
  rw [freesCompleted, ho] at h
  dsimp only at h
  rw [decide_eq_false htype, Bool.false_or] at h
  exact mem_under_way.mp (completes_iff.mp h d hd)

structure Deferred (s : IoLoop) : Prop where
  wf : s.Wf
  tcp : s.TcpInv fun v ↦ v.Ok ∧ v.Triggered
  udp : s.UdpInv UdpView.Triggered

theorem Deferred.step (h : s.Deferred) (hno : s.noReconnect a = true)
    (hfree : s.freesCompleted a = true) (hstep : s.step a = some s') : s'.Deferred where
  wf := (step_eq_some hstep).wf h.wf
  tcp := by
    refine h.tcp.step (A := fun v act ↦ act.triggerable v) h.wf hstep
      (fun v hv ↦ ⟨hv.ok, ?_⟩) ?_ ?_
    · cases hv <;> exact fun hdel ↦ by cases hdel
    · rintro v act v' htcp ⟨hok, htrig⟩ hact
      exact ⟨htcp.ok hok hact.noReconnect, htcp.triggered hok htrig hact⟩
    · intro i t act ht hdoes
      cases act with
      | call c sys => exact noReconnect_does hno ht hdoes
      | free =>
        rw [does] at hdoes
        rw [hdoes] at hfree
        exact freesCompleted_free hfree ht (by simp [Obj.type])
      | _ => trivial
  udp := by
    refine h.udp.step (A := fun v act ↦ act.triggerable v) h.wf hstep (fun v hv ↦ ?_)
      (fun v act v' hudp htrig hact ↦ hudp.triggered htrig hact) ?_
    · cases hv
      exact fun hdel ↦ by cases hdel
    · intro i u act hu hdoes
      cases act with
      | free =>
        rw [doesUdp] at hdoes
        rw [hdoes] at hfree
        exact freesCompleted_free hfree hu (by simp [Obj.type])
      | _ => trivial

/-- **Deferred deletions have a trigger** in a run in which every TCP or UDP event that is freed has
a completion in the queue or in the batch for each of its flags, and the client does not call
connect or listen on an event in the error state: this is then so for every event on the list, in
every state. -/
theorem triggered_of_freesCompleted
    (h : Reachable step (fun s a ↦ (s.noReconnect a && s.freesCompleted a) = true) init s) :
    ∃ l, s.Endgame l ∧ ∀ i ∈ l, ∀ o, s.mem i = some o → o.type ≠ .async →
      ∀ d, o.proactor.flag d = true → (i, d) ∈ s.queue ++ s.batch := by
  have hd : s.Deferred := by
    refine h.invariant ⟨init_wf, init_tcpInv _, init_udpInv _⟩ fun s a s' hs ha hstep ↦ ?_
    rw [Bool.and_eq_true] at ha
    exact hs.step ha.1 ha.2 hstep
  obtain ⟨l, hl⟩ := hd.wf.memory.endgame
  refine ⟨l, hl, fun i hi o ho htype d hflag ↦ mem_under_way.mpr ?_⟩
  obtain ⟨x, hx, hdel⟩ := hl.deleted i hi
  obtain rfl := Option.some.inj (ho.symm.trans hx)
  cases o with
  | tcp t => exact (hd.tcp i t ho).2 hdel d hflag
  | udp u => exact hd.udp i u ho hdel d hflag
  | async x => exact absurd rfl htype

/-- A connection whose write was done at once and a UDP event whose write was done at once are freed
before the completions are delivered. -/
def freeCompleted : List Action :=
  [.new .tcp, .new .udp, .tcp 0 (.connect true none true) (.ok 0),
    .udp 1 (.write ⟨4, 8⟩ (some ⟨2, 7⟩) true) (.ok 4), .free 0, .free 1, .runEnter, .processEndgame]

theorem triggered_of_freesCompleted_freeCompleted :
    ∃ s, exec step (fun s a ↦ (s.noReconnect a && s.freesCompleted a) = true) init freeCompleted =
        some s ∧
      s.queue = [(0, .write), (1, .write)] ∧
      ∃ l, s.Endgame l ∧ ∀ i ∈ l, ∀ o, s.mem i = some o → o.type ≠ .async →
        ∀ d, o.proactor.flag d = true → (i, d) ∈ s.queue ++ s.batch := by
  have hrun : ((exec step (fun s a ↦ (s.noReconnect a && s.freesCompleted a) = true) init
      freeCompleted).map fun s ↦ s.queue) = some [(0, .write), (1, .write)] := by decide +kernel
  obtain ⟨s, hs, hqueue⟩ := Option.map_eq_some_iff.mp hrun
  exact ⟨s, hs, hqueue, triggered_of_freesCompleted (Reachable.of_exec hs)⟩

/-- A TCP event that connects and a UDP event that reads are freed. -/
def freeWaiting : List Action :=
  [.new .tcp, .new .udp, .tcp 0 (.connect true none true) { Sys.ok 0 with connect := .inProgress },
    .udp 1 (.bind ⟨2, 7⟩) (.ok 0), .udp 1 (.read ⟨9, 16⟩ true) (.ok 0), .free 0, .free 1, .runEnter,
    .processEndgame]

/-- Both events are on the list with a flag set, and nothing is on the way or can be reported. -/
theorem freeWaiting_not_triggered :
    ∃ s t u, Reachable step anyStep init s ∧ s.Endgame [1, 0] ∧
      s.mem 0 = some (.tcp t) ∧ t.writing = true ∧ t.sock = none ∧
      s.mem 1 = some (.udp u) ∧ u.reading = true ∧ u.sock = none ∧ s.queue ++ s.batch = [] := by
  have hrun : ((exec step anyStep init freeWaiting).bind fun s ↦ (s.tcpAt 0).bind fun t ↦
      (s.udpAt 1).map fun u ↦
        ([s.endgameHead, s.nextOf 1, s.nextOf 0],
          [t.writing, t.sock.isNone, u.reading, u.sock.isNone], s.queue ++ s.batch)) =
      some ([some 1, some 0, none], [true, true, true, true], []) := by decide +kernel
  obtain ⟨s, hs, hfields⟩ := Option.bind_eq_some_iff.mp hrun
  obtain ⟨t, ht, hfields⟩ := Option.bind_eq_some_iff.mp hfields
  obtain ⟨u, hu, hfields⟩ := Option.map_eq_some_iff.mp hfields
  simp only [Prod.mk.injEq, List.cons.injEq, and_true, Option.isNone_iff_eq_none] at hfields
  obtain ⟨⟨hhead, h₁, h₀⟩, ⟨hwriting, hsock, hreading, hsock'⟩, hnone⟩ := hfields
  have hreach : Reachable step anyStep init s := Reachable.of_exec hs
  obtain ⟨l, hl⟩ := (wf_of_reachable hreach).memory.endgame
  have hchain : Memory.Chain s.nextOf s.endgameHead [1, 0] none := ⟨hhead, h₁, h₀⟩
  obtain rfl := hl.chain.unique hchain
  exact ⟨s, t, u, hreach, hl, tcpAt_eq_some ht, hwriting, hsock, udpAt_eq_some hu, hreading, hsock',
    hnone⟩

end IoLoop

end Nanoev
