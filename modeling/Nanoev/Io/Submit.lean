import Nanoev.Io.Local
import Nanoev.Io.UdpOutcome

/-!
# What a call submits

A call submits at most one completion to the queue of the poller, and none when the poller has no
memory for it: `submit_fake_io` is the last thing that can fail in a call.
-/

namespace Nanoev

section NoMemory

variable {op : ℕ} {sys : Sys} {fresh : Fresh} (hsubmit : sys.submit = false)

include hsubmit

theorem Tcp.connect_submitted (t : Tcp) (addr : Bool) (timeout : Option Timeval) (cb : Option ℕ) :
    (t.nanoevTcpConnect addr timeout cb sys fresh).2.1.filterMap IoEffect.submitted? = [] := by
  have hopened : (t.createTcpSocket sys fresh).2.1.filterMap IoEffect.submitted? = [] := by
    unfold createTcpSocket
    split
    · rfl
    · split <;> rfl
  rcases hcreate : t.createTcpSocket sys fresh with ⟨t₁, opened, err⟩
  rw [hcreate] at hopened
  have hassert : ∀ b, (opened ++ assertEffect b).filterMap IoEffect.submitted? = [] := by
    intro b
    rw [List.filterMap_append, hopened, assertEffect_submitted, List.append_nil]
  simp only [nanoevTcpConnect, hcreate, hsubmit, Bool.false_eq_true, if_false]
  split_ifs
  · rfl
  · rfl
  · rfl
  · cases err with
    | some e => exact hopened
    | none =>
      cases sys.connect with
      | done | failed e => exact hopened
      | inProgress =>
        dsimp only
        split
        · exact hassert _
        · split
          · exact hassert _
          · split <;> exact hassert _

theorem Tcp.accept_submitted (t : Tcp) (timeout : Option Timeval) (cb : Option ℕ) (alloc : Bool) :
    (t.nanoevTcpAccept timeout cb alloc sys fresh).2.1.filterMap IoEffect.submitted? = [] := by
  simp only [nanoevTcpAccept, hsubmit, Bool.false_eq_true, if_false]
  split_ifs
  · rfl
  · rfl
  · rfl
  · split
    · split <;> rfl
    · rfl
    · split
      · rfl
      · split <;> rfl

theorem Tcp.write_submitted (t : Tcp) (b : IoBuf) (timeout : Option Timeval) (cb : Option ℕ) :
    (t.nanoevTcpWrite b timeout cb sys).2.1.filterMap IoEffect.submitted? = [] := by
  simp only [nanoevTcpWrite, hsubmit, Bool.false_eq_true, if_false]
  split_ifs
  · rfl
  · rfl
  · rfl
  · split
    · rfl
    · rfl
    · split
      · exact assertEffect_submitted _
      · split
        · exact assertEffect_submitted _
        · split <;> exact assertEffect_submitted _

theorem Udp.startWrite_submitted (u : Udp) (b : IoBuf) (a : Option Addr) (cb : Option ℕ) :
    (u.startWrite b a cb sys).2.1.filterMap IoEffect.submitted? = [] := by
  simp only [startWrite, hsubmit, Bool.false_eq_true, if_false]
  split
  · rfl
  · rfl
  · split <;> exact assertEffect_submitted _

theorem Udp.write_submitted (u : Udp) (b : IoBuf) (a : Option Addr) (cb : Option ℕ) :
    (u.nanoevUdpWrite b a cb sys fresh).2.1.filterMap IoEffect.submitted? = [] := by
  obtain ⟨m, k, f, opened, err, hopen, heq⟩ :=
    u.openUdpSocket_eq ((a.map Addr.family).getD 0) sys fresh
  have hopened : opened.filterMap IoEffect.submitted? = [] := by
    cases hopen <;> rfl
  simp only [nanoevUdpWrite, heq]
  split_ifs
  · rfl
  · rfl
  · rfl
  · cases err with
    | some e => exact hopened
    | none =>
      dsimp only
      split
      · exact hopened
      · rw [List.filterMap_append, hopened, startWrite_submitted hsubmit, List.append_nil]

end NoMemory

/-- At most one completion is submitted in a call, and only in one that starts an operation other
than a read. -/
theorem Tcp.CallOutcome.submitted {t t' : Tcp} {op : ℕ} {sys : Sys} {fresh : Fresh} {c : TcpCall}
    {effects : List IoEffect} {ret : RetCode} (h : CallOutcome t op sys fresh c t' effects ret) :
    effects.filterMap IoEffect.submitted? = [] ∨
      ∃ d, effects.filterMap IoEffect.submitted? = [d] ∧
        c.op?.any (fun o ↦ o.1 ≠ .read) = true := by
  cases h with
  | connectQueued | acceptQueued | writeQueued => exact .inr ⟨_, rfl, rfl⟩
  | acceptFailed _ _ _ _ heffects => rcases heffects with rfl | rfl <;> exact .inl rfl
  | openFailed | connectDeferred | writeFailed | writeDeferred =>
    exact .inl (assertEffect_submitted _)
  | _ => exact .inl rfl

/-- Only what the poller has taken is submitted, and at most one completion in a call. -/
theorem TcpCall.run_submitted (c : TcpCall) (t : Tcp) (op : ℕ) (sys : Sys) (fresh : Fresh) :
    (c.run t op sys fresh).2.1.filterMap IoEffect.submitted? = [] ∨
      ∃ d, (c.run t op sys fresh).2.1.filterMap IoEffect.submitted? = [d] ∧ sys.submit = true := by
  have hout : Tcp.CallOutcome t op sys fresh c _ _ _ := Tcp.run_outcome c
  rcases hout.submitted with hnil | ⟨d, hd, hop⟩
  · exact .inl hnil
  · cases hsubmit : sys.submit with
    | true => exact .inr ⟨d, hd, rfl⟩
    | false =>
      refine .inl ?_
      cases c with
      | connect => exact Tcp.connect_submitted hsubmit ..
      | accept => exact Tcp.accept_submitted hsubmit ..
      | write => exact Tcp.write_submitted hsubmit ..
      | listen | read | shutdown | addr | setOption => cases hop

theorem Udp.CallOutcome.submitted {u u' : Udp} {op : ℕ} {fresh : Fresh} {c : UdpCall}
    {effects : List IoEffect} {ret : RetCode} (h : CallOutcome u op fresh c u' effects ret) :
    effects.filterMap IoEffect.submitted? = [] ∨
      ∃ d, effects.filterMap IoEffect.submitted? = [d] ∧ ∃ b a cb, c = .write b a cb := by
  have hopened : ∀ {m k m' k' l}, Opening fresh m k m' k' l →
      l.filterMap IoEffect.submitted? = [] := by
    intro m k m' k' l hopen
    cases hopen <;> rfl
  cases h with
  | readStarted => exact .inl rfl
  | quiet hopen | writeDeferred hopen =>
    left
    rw [List.filterMap_append, hopened hopen, assertEffect_submitted, List.append_nil]
  | writeQueued hopen =>
    refine .inr ⟨.write, ?_, _, _, _, rfl⟩
    rw [List.filterMap_append, hopened hopen]
    rfl

theorem UdpCall.run_submitted (c : UdpCall) (u : Udp) (op : ℕ) (sys : Sys) (fresh : Fresh) :
    (c.run u op sys fresh).2.1.filterMap IoEffect.submitted? = [] ∨
      ∃ d, (c.run u op sys fresh).2.1.filterMap IoEffect.submitted? = [d] ∧ sys.submit = true := by
  have hout : Udp.CallOutcome u op fresh c (c.run u op sys fresh).1 (c.run u op sys fresh).2.1
    (c.run u op sys fresh).2.2 := Udp.run_outcome c
  rcases hout.submitted with hnil | ⟨d, hd, b, a, cb, rfl⟩
  · exact .inl hnil
  · cases hsubmit : sys.submit with
    | true => exact .inr ⟨d, hd, rfl⟩
    | false => exact .inl (Udp.write_submitted hsubmit ..)

end Nanoev
