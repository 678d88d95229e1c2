import Nanoev.Io.TcpLoop
import Nanoev.Io.AsyncLoop

/-!
# Completions refer to events that are there

The queue of the poller and the batch hold pointers to events and to their contexts. The client may
free any event from any callback, also one that has a completion later in the same batch. Its memory
stays, because a completion on the way comes with a flag that makes the free function defer the
deletion: `READING` or `WRITING` for a TCP event, `async_sent` for an async event.
-/

namespace Nanoev

open Transition

/-- The context is one of the event's own: TCP and UDP events have one for each direction, an async
event has one. -/
def Obj.hasCtx : Obj → Dir → Bool
  | .async _, d => decide (d = .read)
  | _, _ => true

namespace IoLoop

variable {s s' : IoLoop} {a : Action} {j : ℕ} {type : EventType}

/-- The completions on the way are for events that have been created. -/
def Typed (s : IoLoop) : Prop := ∀ e ∈ s.queue ++ s.batch, s.typeOf e.1 ≠ none

theorem Steps.typed (hstep : s.Steps a s') (hw : s.Wf) (h : s.Typed) : s'.Typed := by
  rintro ⟨j, d⟩ he
  rw [mem_under_way] at he
  dsimp only
  have hold : 0 < s.queued j d + s.batched j d → s'.typeOf j ≠ none := by
    intro hpos
    have hmem := mem_under_way.mpr hpos
    have hlt : j < s.nextEvent := (List.mem_append.mp hmem).elim (hw.traffic.queue_lt _)
      (hw.traffic.batch_lt _)
    rw [hstep.typeOf_eq hw hlt]
    exact h _ hmem
  have hnew : ∀ {o}, s.mem j = some o → s'.typeOf j ≠ none := by
    intro o ho
    rw [hstep.typeOf_eq hw (hw.memory.lt ho), hw.memory.typeOf ho]
    exact Option.some_ne_none _
  cases hstep.local hw j with
  | untouched _ hstill => exact hold (he.trans_le (hstill.count_le d))
  | created _ _ _ hq hb =>
    rw [hq, hb] at he
    cases he
  | released _ _ hcount => exact hold (he.trans_le (hcount d))
  | polled _ _ _ hmoved =>
    rw [hmoved d] at he
    exact hold (Nat.add_pos_left he _)
  | linked _ ho | freed _ ho | tcpCall _ ho | tcpTimeout _ ho | tcpOffer _ ho | tcpDispatch _ ho
  | udpCall _ ho | udpOffer _ _ ho | udpDispatch _ ho | asyncStart ho | asyncSend ho
  | asyncOffer _ ho | asyncDispatch _ ho => exact hnew ho

/-- Apart from the events of accepted connections, events are created by the client. -/
theorem Steps.typeOf_ne (hstep : s.Steps a s') (hw : s.Wf) (hnew : a ≠ .new type)
    (htcp : type ≠ .tcp) (h : s.typeOf j ≠ some type) : s'.typeOf j ≠ some type := by
  cases hstep with
  | @new type' hp =>
    by_cases hj : j = s.nextEvent
    · subst hj
      show Function.update s.typeOf s.nextEvent (some type') s.nextEvent ≠ _
      rw [Function.update_self]
      exact fun heq ↦ hnew (congrArg _ (Option.some.inj heq))
    · show Function.update s.typeOf s.nextEvent (some type') j ≠ _
      rw [Function.update_of_ne hj]
      exact h
  | free => rw [eventFree_eq]; exact h
  | processEndgame hp hx => rw [hw.processEndgame_eq hx]; exact h
  | @dispatchTcp i t d rest sys =>
    unfold IoLoop.dispatchTcp
    rcases t.tcpProactorCallback d sys s.fresh with ⟨t', client, effects⟩
    cases client with
    | none => exact h
    | some c =>
      by_cases hj : j = s.nextEvent
      · subst hj
        show Function.update s.typeOf s.nextEvent (some .tcp) s.nextEvent ≠ _
        rw [Function.update_self]
        exact fun heq ↦ htcp (Option.some.inj heq).symm
      · show Function.update s.typeOf s.nextEvent (some .tcp) j ≠ _
        rw [Function.update_of_ne hj]
        exact h
  | _ => exact h

/-! ## TCP and async events -/

/-- The completions on the way to TCP and async events come with a flag. -/
structure Flagged (s : IoLoop) : Prop where
  notified : s.Notified
  tcp : s.TcpInv TcpView.Ok
  typed : s.Typed
  addressed : s.Addressed fun type ↦ type ≠ .udp

theorem init_flagged : init.Flagged where
  notified := init_notified
  tcp := init_tcpInv _
  typed := nofun
  addressed := init_addressed _

namespace Flagged

/-- An async event with a completion on the way has been sent a notification. -/
theorem asyncSent {x : Async} {d : Dir} (h : s.Flagged) (hx : s.mem j = some (.async x))
    (hpos : 0 < s.queued j d + s.batched j d) : d = .read ∧ x.asyncSent = true := by
  obtain ⟨hsent, -, hqueue, hwrite⟩ := h.notified.async j x hx
  have hq : s.queued j d = 0 := hqueue d
  have hsent : x.pipeBytes + s.batched j .read = x.asyncSent.toNat := hsent
  have hwrite : s.batched j .write = 0 := hwrite
  cases d with
  | read =>
    refine ⟨rfl, Bool.eq_true_of_not_eq_false fun hidle ↦ ?_⟩
    rw [hidle, Bool.toNat_false] at hsent
    omega
  | write => omega

theorem freeDefers {o : Obj} {d : Dir} (h : s.Flagged) (ho : s.mem j = some o)
    (htype : o.type ≠ .udp) (hpos : 0 < s.queued j d + s.batched j d) : o.freeDefers = true := by
  cases o with
  | tcp t =>
    have hflag := ((h.tcp j t ho).side d).flag hpos
    cases d with
    | read => exact Bool.or_eq_true_iff.mpr (.inl hflag)
    | write => exact Bool.or_eq_true_iff.mpr (.inr hflag)
  | udp u => exact absurd rfl htype
  | async x => exact Bool.or_eq_true_iff.mpr (.inl (h.asyncSent ho hpos).2)

theorem step (h : s.Flagged) (ha : s.noReconnect a = true) (hstep : s.step a = some s') :
    s'.Flagged where
  notified := h.notified.step hstep
  tcp := tcpOk_step h.tcp h.notified.wf hstep ha
  typed := (step_eq_some hstep).typed h.notified.wf h.typed
  addressed := (step_eq_some hstep).addressed h.notified.wf h.addressed fun _ _ _ ho htype hpos ↦
    h.freeDefers ho htype hpos

theorem entry {e : ℕ × Dir} (h : s.Flagged) (he : e ∈ s.queue ++ s.batch)
    (htype : s.typeOf e.1 ≠ some .udp) :
    ∃ o, s.mem e.1 = some o ∧ o.hasCtx e.2 = true := by
  obtain ⟨type, ht⟩ := Option.ne_none_iff_exists'.mp (h.typed e he)
  have hp : type ≠ .udp := by
    rintro rfl
    exact htype ht
  obtain ⟨o, ho⟩ := Option.ne_none_iff_exists'.mp (h.addressed e he type ht hp)
  refine ⟨o, ho, ?_⟩
  cases o with
  | tcp t | udp u => rfl
  | async x => exact decide_eq_true (h.asyncSent ho (mem_under_way.mp he)).1

end Flagged

/-- The client uses TCP and async events, and does not open a socket on a TCP event in the error
state. -/
def tcpAndAsync (s : IoLoop) (a : Action) : Bool := s.noReconnect a && decide (a ≠ .new .udp)

/-- **No completion dangles**: what the queue and the batch refer to is in memory, and the contexts
are those of the events. -/
theorem entries_present_of_tcpAndAsync
    (h : Reachable step (fun s a ↦ s.tcpAndAsync a = true) init s) :
    ∀ e ∈ s.queue ++ s.batch, ∃ o, s.mem e.1 = some o ∧ o.hasCtx e.2 = true := by
  have hinv : s.Flagged ∧ ∀ j, s.typeOf j ≠ some .udp := by
    refine h.invariant (I := fun s ↦ s.Flagged ∧ ∀ j, s.typeOf j ≠ some .udp)
      ⟨init_flagged, nofun⟩ fun s a s' hs hok hstep ↦ ?_
    obtain ⟨hreconnect, hnew⟩ := Bool.and_eq_true_iff.mp hok
    refine ⟨hs.1.step hreconnect hstep, fun j ↦ ?_⟩
    exact (step_eq_some hstep).typeOf_ne hs.1.notified.wf (of_decide_eq_true hnew) nofun (hs.2 j)
  exact fun e he ↦ hinv.1.entry he (hinv.2 e.1)

/-- In the callback of a connect the client frees an async event that has been sent a notification,
writes on the TCP event, and frees that as well while the completion of the write is in the
queue. -/
def freeInCallback : List Action :=
  [.new .async, .asyncStart 0 (.ok 0), .asyncSend 0 true, .new .tcp,
    .tcp 2 (.connect true none true) (.ok 0), .runEnter, .processEndgame, .takeQueued,
    .dispatch (.ok 0), .free 0, .tcp 2 (.write ⟨4, 8⟩ none true) (.ok 4), .free 2, .callbackReturn,
    .nextRound, .processEndgame]

theorem entries_present_of_tcpAndAsync_freeInCallback :
    ∃ s, exec step (fun s a ↦ s.tcpAndAsync a = true) init freeInCallback = some s ∧
      s.queue = [(2, .write)] ∧ s.freed 2 = true ∧
      ∃ o, s.mem 2 = some o ∧ o.hasCtx .write = true := by
  have hrun : ((exec step (fun s a ↦ s.tcpAndAsync a = true) init freeInCallback).map fun s ↦
      (s.queue, s.freed 2)) = some ([(2, .write)], true) := by decide +kernel
  obtain ⟨s, hs, hfields⟩ := Option.map_eq_some_iff.mp hrun
  obtain ⟨hqueue, hfreed⟩ := Prod.mk.inj hfields
  refine ⟨s, hs, hqueue, hfreed,
    entries_present_of_tcpAndAsync (Reachable.of_exec hs) (2, .write) ?_⟩
  rw [hqueue]
  exact List.mem_cons_self

end IoLoop

end Nanoev
