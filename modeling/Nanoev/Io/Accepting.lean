import Nanoev.Io.TcpLoop

/-!
# Events that accept connections

Where a listening event keeps the descriptor of an accepted connection until it can hand it over:
in `socket_accept`, from the call of `accept` until the completion is delivered. The field shares
its bytes with the buffer of a read, and what a completion means is derived from the flags when it
is delivered, so it takes an invariant to say that the field holds a descriptor exactly when the
code takes it for one.

Nothing is assumed about the client. It may call connect on a listening event whose accept has timed
out, and the completion of that connect is then taken for the one of an accept.
-/

namespace Nanoev

open Transition

/-- The descriptor of an accepted connection that waits for its completion. -/
def ReadSlot.held : ReadSlot → List ℕ
  | .accept _ (some fd) => [fd]
  | _ => []

/-- A listening event that has lost its socket: it accepts no more. -/
structure Tcp.Blocked (t : Tcp) : Prop where
  error : t.error = true
  reading : t.reading = false
  slot : ∃ alloc, t.readSlot = .accept alloc none

structure TcpView.Unconnected (v : TcpView) : Prop where
  accepts : v.t.reading = true →
    v.t.onAccept ≠ none ∧ v.t.listening = true ∧ ∃ alloc fd, v.t.readSlot = .accept alloc fd
  reads : v.queued .read + v.batched .read ≤ v.t.reading.toNat
  readTimer : v.t.timeoutRead.active = true → v.t.reading = true ∧ v.queued .read = 0
  /-- The socket of a listening event is only closed when an accept times out. -/
  closed : v.t.deleted = false → v.t.listening = true → v.t.sock = none → v.t.Blocked
  /-- A connect can only be called on a listening event that has lost its socket. -/
  connects : v.t.listening = true → v.t.writing = true ∨ 0 < v.queued .write + v.batched .write →
    v.t.Blocked
  unopened : v.t.deleted = false → v.t.listening = false → v.t.sock = none →
    v.t.writing = false ∧ v.queued .write + v.batched .write = 0 ∧ v.t.timeoutWrite.active = false
  writeTimer : v.t.listening = false → v.t.timeoutWrite.active = true → v.queued .write = 0

/-- An event with what it says about descriptors that it has accepted. -/
structure TcpView.Accepting (v : TcpView) : Prop where
  unconnected : v.t.connected = false → v.Unconnected
  slot : v.t.readSlot.held ≠ [] → v.t.connected = false ∧ v.t.listening = true ∧
    v.t.reading = true ∧ 0 < v.queued .read + v.batched .read
  role : v.t.connected = true → v.t.listening = true → v.t.error = true
  lost : v.t.connected = true → v.t.deleted = false → v.t.sock = none → v.t.error = true

namespace TcpView

variable {v : TcpView} {t' : Tcp} {q b : Dir → ℕ}

theorem Unconnected.not_reading (h : v.Unconnected) (hr : v.t.reading = false) :
    v.queued .read + v.batched .read = 0 ∧ v.t.timeoutRead.active = false := by
  have hreads := h.reads
  rw [hr, Bool.toNat_false] at hreads
  refine ⟨Nat.le_zero.mp hreads, Bool.eq_false_of_not_eq_true fun hτ ↦ ?_⟩
  exact absurd ((h.readTimer hτ).1.symm.trans hr) (by decide)

theorem Unconnected.of_reads (h : v.Unconnected) (hpos : 0 < v.queued .read + v.batched .read) :
    v.t.reading = true := by
  refine Bool.eq_true_of_not_eq_false fun hr ↦ ?_
  have := (h.not_reading hr).1
  omega

/-- The field holds no descriptor in an event that does not read, or is connected. -/
theorem Accepting.held_eq_nil (h : v.Accepting)
    (hv : v.t.connected = true ∨ v.t.reading = false) : v.t.readSlot.held = [] := by
  by_contra hne
  obtain ⟨hconnected, -, hreading, -⟩ := h.slot hne
  rcases hv with hv | hv
  · exact absurd (hconnected.symm.trans hv) (by decide)
  · exact absurd (hv.symm.trans hreading) (by decide)

theorem Accepting.of_connected (hconnected : t'.connected = true) (hslot : t'.readSlot.held = [])
    (hrole : t'.listening = true → t'.error = true)
    (hlost : t'.deleted = false → t'.sock = none → t'.error = true) :
    Accepting ⟨t', q, b⟩ where
  unconnected := fun h ↦ absurd (h.symm.trans hconnected) (by decide)
  slot := fun h ↦ absurd hslot h
  role := fun _ ↦ hrole
  lost := fun _ ↦ hlost

theorem Blocked.mono {t : Tcp} (h : t.Blocked) (herror : t.error = true → t'.error = true)
    (hreading : t'.reading = t.reading) (hslot : t'.readSlot = t.readSlot) : t'.Blocked :=
  ⟨herror h.error, hreading.trans h.reading, hslot ▸ h.slot⟩

/-- What the steps that start and complete nothing leave alone. -/
structure Quiet (t t' : Tcp) : Prop where
  connected : t'.connected = t.connected
  listening : t'.listening = t.listening
  reading : t'.reading = t.reading
  onAccept : t'.reading = true → t'.onAccept = t.onAccept
  slot : t'.readSlot = t.readSlot
  deleted : t'.deleted = false → t.deleted = false
  writing : t'.writing = true → t.writing = true
  error : t.error = true → t'.error = true
  timeoutRead : t'.timeoutRead.active = true → t.timeoutRead.active = true
  timeoutWrite : t'.timeoutWrite.active = true → t.timeoutWrite.active = true
  sock : t'.deleted = false → t'.sock = none → t.sock = none

theorem Accepting.quiet (h : v.Accepting) (hq : Quiet v.t t')
    (hread : q .read + b .read = v.queued .read + v.batched .read)
    (hwrite : q .write + b .write ≤ v.queued .write + v.batched .write)
    (hle : ∀ d, q d ≤ v.queued d) : Accepting ⟨t', q, b⟩ where
  unconnected := by
    intro hconnected
    have hu := h.unconnected (hq.connected.symm.trans hconnected)
    have hblocked : v.t.Blocked → t'.Blocked := fun hb ↦ Blocked.mono hb hq.error hq.reading hq.slot
    refine ⟨fun hr ↦ ?_, ?_, fun hτ ↦ ?_, fun hd hl hs ↦ ?_, fun hl hw ↦ ?_, fun hd hl hs ↦ ?_,
      fun hl hτ ↦ ?_⟩
    · rw [hq.onAccept hr, hq.listening, hq.slot]
      exact hu.accepts (hq.reading.symm.trans hr)
    · show q .read + b .read ≤ t'.reading.toNat
      rw [hread, hq.reading]
      exact hu.reads
    · obtain ⟨hr, hnone⟩ := hu.readTimer (hq.timeoutRead hτ)
      exact ⟨hq.reading.trans hr, Nat.le_zero.mp (hnone ▸ hle .read)⟩
    · exact hblocked (hu.closed (hq.deleted hd) (hq.listening.symm.trans hl) (hq.sock hd hs))
    · refine hblocked (hu.connects (hq.listening.symm.trans hl) (hw.imp hq.writing fun hpos ↦ ?_))
      dsimp only at hpos
      omega
    · obtain ⟨h₁, h₂, h₃⟩ :=
        hu.unopened (hq.deleted hd) (hq.listening.symm.trans hl) (hq.sock hd hs)
      refine ⟨Bool.eq_false_of_not_eq_true fun hw ↦ ?_, ?_,
        Bool.eq_false_of_not_eq_true fun hτ ↦ ?_⟩
      · exact absurd (h₁.symm.trans (hq.writing hw)) (by decide)
      · dsimp only
        omega
      · exact absurd (h₃.symm.trans (hq.timeoutWrite hτ)) (by decide)
    · have hnone := hu.writeTimer (hq.listening.symm.trans hl) (hq.timeoutWrite hτ)
      exact Nat.le_zero.mp (hnone ▸ hle .write)
  slot := by
    intro hne
    obtain ⟨h₁, h₂, h₃, h₄⟩ := h.slot (hq.slot ▸ hne)
    refine ⟨hq.connected.trans h₁, hq.listening.trans h₂, hq.reading.trans h₃, ?_⟩
    dsimp only
    omega
  role := fun hc hl ↦ hq.error (h.role (hq.connected.symm.trans hc) (hq.listening.symm.trans hl))
  lost := fun hc hd hs ↦
    hq.error (h.lost (hq.connected.symm.trans hc) (hq.deleted hd) (hq.sock hd hs))

theorem Quiet.of_rfl {t : Tcp} : Quiet t t where
  connected := rfl
  listening := rfl
  reading := rfl
  onAccept := fun _ ↦ rfl
  slot := rfl
  deleted := id
  writing := id
  error := id
  timeoutRead := id
  timeoutWrite := id
  sock := fun _ ↦ id

end TcpView

theorem Tcp.Unarmed.active {τ τ' : TcpTimeout} (h : Tcp.Unarmed τ τ') (hτ' : τ'.active = true) :
    τ.active = true := by
  rcases h with rfl | rfl | ⟨hactive, -⟩
  · exact hτ'
  · cases hτ'
  · exact hactive

/-- What is noted with a completion keeps the error state, and closes nothing. -/
theorem Tcp.Noted.mono {t : Tcp} {d : Dir} {sys : Sys} {m : Mask} {k : Option Socket} {er : Bool}
    (hn : Tcp.Noted t d sys m k er) :
    (t.error = true → er = true) ∧ (k = none → t.sock = none) := by
  obtain ⟨events, err, -, hreg⟩ := hn.reg
  refine ⟨fun he ↦ ?_, (epollPollerModify_eq_none_iff hreg).mp⟩
  rw [hn.error, he, Bool.true_or]

namespace TcpView.Accepting

open Tcp

variable {v : TcpView} {t' : Tcp} {d : Dir} {sys : Sys} {fresh : Fresh} {effects : List IoEffect}

theorem call_quiet (h : v.Accepting) (hq : Quiet v.t t') (hsubmits : ∀ d, submits effects d = 0) :
    Accepting ⟨t', fun d ↦ v.queued d + submits effects d, v.batched⟩ := by
  simp only [hsubmits, Nat.add_zero]
  exact h.quiet hq rfl le_rfl fun _ ↦ le_rfl

theorem connect {q : Dir → ℕ} (h : v.Accepting) (hlive : v.t.deleted = false)
    (hsock : v.t.sock = none) (hk : t'.sock ≠ none)
    (hrole : t'.connected = v.t.connected ∧ t'.listening = v.t.listening)
    (hreading : t'.reading = v.t.reading ∧ t'.onAccept = v.t.onAccept ∧
      t'.readSlot = v.t.readSlot ∧ t'.timeoutRead = v.t.timeoutRead)
    (herror : t'.error = v.t.error) (hq : q .read = v.queued .read)
    (htimer : v.t.timeoutWrite.active = false → v.queued .write = 0 →
      t'.timeoutWrite.active = true → q .write = 0) :
    Accepting ⟨t', q, v.batched⟩ where
  unconnected := by
    intro hconnected
    have hu := h.unconnected (hrole.1.symm.trans hconnected)
    obtain ⟨hr, hon, hslot, hτ⟩ := hreading
    have hblocked : t'.listening = true → t'.Blocked := fun hl ↦
      Blocked.mono (hu.closed hlive (hrole.2.symm.trans hl) hsock) (fun he ↦ herror.trans he)
        hr hslot
    refine ⟨?_, ?_, ?_, fun _ hl _ ↦ hblocked hl, fun hl _ ↦ hblocked hl,
      fun _ _ hs ↦ absurd hs hk, fun hl hactive ↦ ?_⟩
    · rw [hr, hon, hrole.2, hslot]
      exact hu.accepts
    · rw [hr]
      dsimp only
      rw [hq]
      exact hu.reads
    · rw [hτ, hr]
      dsimp only
      rw [hq]
      exact hu.readTimer
    · obtain ⟨-, hnone, hinactive⟩ := hu.unopened hlive (hrole.2.symm.trans hl) hsock
      exact htimer hinactive (by omega) hactive
  slot := by
    obtain ⟨hr, hon, hslot, hτ⟩ := hreading
    rw [hslot, hrole.1, hrole.2, hr]
    dsimp only
    rw [hq]
    exact h.slot
  role := by
    rw [hrole.1, hrole.2, herror]
    exact h.role
  lost := fun _ _ hs ↦ absurd hs hk

theorem of_ready (h : v.Accepting) (hlistening : v.t.listening = true)
    (herror : v.t.error = false) :
    v.t.connected = false ∧ v.Unconnected ∧ ¬v.t.Blocked := by
  have hconnected : v.t.connected = false := by
    refine Bool.eq_false_of_not_eq_true fun hc ↦ ?_
    exact absurd (herror.symm.trans (h.role hc hlistening)) (by decide)
  refine ⟨hconnected, h.unconnected hconnected, fun hb ↦ ?_⟩
  exact absurd (herror.symm.trans hb.error) (by decide)

/-- The read side of a listening event that has not lost its socket changes: an accept is started,
or completed. -/
theorem accept {q b : Dir → ℕ} (hu : v.Unconnected) (hnot : ¬v.t.Blocked)
    (hrole : t'.connected = false ∧ t'.listening = true) (hlistening : v.t.listening = true)
    (hwriting : t'.writing = v.t.writing) (hdeleted : t'.deleted = v.t.deleted)
    (hsock : t'.sock = none → v.t.sock = none) (hwrite : q .write + b .write ≤
      v.queued .write + v.batched .write)
    (haccepts : t'.reading = true → t'.onAccept ≠ none ∧ ∃ alloc fd, t'.readSlot = .accept alloc fd)
    (hreads : q .read + b .read ≤ t'.reading.toNat)
    (htimer : t'.timeoutRead.active = true → t'.reading = true ∧ q .read = 0)
    (hslot : t'.readSlot.held ≠ [] → t'.reading = true ∧ 0 < q .read + b .read) :
    Accepting ⟨t', q, b⟩ where
  unconnected := by
    intro _
    have hnever : ∀ {p : Prop}, t'.listening = false → p := fun hl ↦
      absurd (hl.symm.trans hrole.2) (by decide)
    refine ⟨fun hr ↦ ?_, hreads, htimer, fun hd _ hs ↦ ?_, fun _ hw ↦ ?_, fun _ hl ↦ hnever hl,
      fun hl ↦ hnever hl⟩
    · exact ⟨(haccepts hr).1, hrole.2, (haccepts hr).2⟩
    · exact absurd (hu.closed (hdeleted.symm.trans hd) hlistening (hsock hs)) hnot
    · refine absurd (hu.connects hlistening (hw.imp (fun h ↦ hwriting.symm.trans h) fun hpos ↦ ?_))
        hnot
      dsimp only at hpos
      omega
  slot := fun hne ↦ ⟨hrole.1, hrole.2, hslot hne⟩
  role := fun hc ↦ absurd (hc.symm.trans hrole.1) (by decide)
  lost := fun hc ↦ absurd (hc.symm.trans hrole.1) (by decide)

theorem call {c : TcpCall} {op : ℕ} {ret : RetCode} (h : v.Accepting)
    (hlive : v.t.deleted = false) (hc : CallOutcome v.t op sys fresh c t' effects ret) :
    Accepting ⟨t', fun d ↦ v.queued d + submits effects d, v.batched⟩ := by
  cases hc with
  | refused => exact h.call_quiet .of_rfl fun _ ↦ rfl
  | systemFailed =>
    exact h.call_quiet ⟨rfl, rfl, rfl, fun _ ↦ rfl, rfl, id, id, fun _ ↦ rfl, id, id, fun _ ↦ id⟩
      fun _ ↦ rfl
  | noSocket hc hsock hτ =>
    exact h.call_quiet ⟨rfl, rfl, rfl, fun _ ↦ rfl, rfl, id, id, fun _ ↦ rfl, id, hτ.active,
      fun _ ↦ id⟩ fun _ ↦ rfl
  | openFailed hc hsock hreg hτ =>
    exact h.call_quiet ⟨rfl, rfl, rfl, fun _ ↦ rfl, rfl, id, id, fun _ ↦ rfl, id, hτ.active,
      fun _ hk ↦ by cases (epollPollerModify_eq_none_iff hreg).mp hk⟩ fun _ ↦
        (submits_opened ..).trans (submits_assertEffect ..)
  | connectQueued hsock =>
    refine h.connect hlive hsock (Option.some_ne_none _) ⟨rfl, rfl⟩ ⟨rfl, rfl, rfl, rfl⟩ rfl rfl ?_
    intro hinactive _ hactive
    exact absurd (hinactive.symm.trans hactive) (by decide)
  | connectDeferred hsock hreg hτ =>
    have hnone : ∀ d a, submits (.opened fresh.fd :: assertEffect a) d = 0 := fun d a ↦
      (submits_opened ..).trans (submits_assertEffect ..)
    simp only [hnone, Nat.add_zero]
    exact h.connect hlive hsock (fun hk ↦ by cases (epollPollerModify_eq_none_iff hreg).mp hk)
      ⟨rfl, rfl⟩ ⟨rfl, rfl, rfl, rfl⟩ rfl rfl fun _ hq _ ↦ hq
  | @listenDone m k hsock hreg =>
    have hk : k ≠ none := fun hk ↦ by cases (epollPollerModify_eq_none_iff hreg).mp hk
    by_cases hconnected : v.t.connected = true
    · exact .of_connected hconnected (h.held_eq_nil (.inl hconnected))
        (fun _ ↦ h.lost hconnected hlive hsock) fun _ hs ↦ absurd hs hk
    · rw [Bool.not_eq_true] at hconnected
      have hu := h.unconnected hconnected
      refine ⟨fun _ ↦
        ⟨fun hr ↦ ?_, hu.reads, hu.readTimer, fun _ _ hs ↦ absurd hs hk, fun _ hw ↦ ?_,
        nofun, nofun⟩, fun hne ↦ ?_, fun hc ↦ absurd (hc.symm.trans hconnected) (by decide),
        fun hc ↦ absurd (hc.symm.trans hconnected) (by decide)⟩
      · obtain ⟨hon, -, hslot⟩ := hu.accepts hr
        exact ⟨hon, rfl, hslot⟩
      · -- a connect that is pending was called after the event had begun to listen
        by_cases hlistening : v.t.listening = true
        · exact Blocked.mono (hu.closed hlive hlistening hsock) id rfl rfl
        · obtain ⟨hwriting, hnone, -⟩ :=
            hu.unopened hlive (Bool.eq_false_of_not_eq_true hlistening) hsock
          rcases hw with hw | hw
          · exact absurd (hwriting.symm.trans hw) (by decide)
          · exact absurd hnone (Nat.pos_iff_ne_zero.mp hw)
      · obtain ⟨h₁, h₂, h₃, h₄⟩ := h.slot hne
        exact ⟨h₁, rfl, h₃, h₄⟩
  | acceptFailed hlistening herror hreading hτ heffects =>
    obtain ⟨hconnected, hu, hnot⟩ := h.of_ready hlistening herror
    obtain ⟨hnone, hinactive⟩ := hu.not_reading hreading
    have hsubmits : ∀ d, submits effects d = 0 := by
      rcases heffects with rfl | rfl <;> exact fun _ ↦ rfl
    simp only [hsubmits, Nat.add_zero]
    refine accept hu hnot ⟨hconnected, hlistening⟩ hlistening rfl rfl id le_rfl
      (fun hr ↦ absurd (hreading.symm.trans hr) (by decide)) hu.reads (fun hactive ↦ ?_)
      fun hne ↦ absurd rfl hne
    exact absurd (hinactive.symm.trans (hτ.active hactive)) (by decide)
  | acceptQueued hlistening hsock herror hreading =>
    obtain ⟨hconnected, hu, hnot⟩ := h.of_ready hlistening herror
    obtain ⟨hnone, hinactive⟩ := hu.not_reading hreading
    have hsubmits : submits [.accepted fresh.fd, .submit .read] .read = 1 := rfl
    refine accept hu hnot ⟨hconnected, hlistening⟩ hlistening rfl rfl id le_rfl
      (fun _ ↦ ⟨Option.some_ne_none _, _, _, rfl⟩) ?_
      (fun hactive ↦ absurd (hinactive.symm.trans hactive) (by decide)) fun _ ↦ ⟨rfl, ?_⟩
    · rw [Bool.toNat_true, hsubmits]
      omega
    · rw [hsubmits]
      omega
  | acceptDeferred hlistening hsock herror hreading hτ =>
    obtain ⟨hconnected, hu, hnot⟩ := h.of_ready hlistening herror
    obtain ⟨hnone, hinactive⟩ := hu.not_reading hreading
    refine accept hu hnot ⟨hconnected, hlistening⟩ hlistening rfl rfl id le_rfl
      (fun _ ↦ ⟨Option.some_ne_none _, _, _, rfl⟩) ?_ (fun _ ↦ ⟨rfl, ?_⟩) fun hne ↦ absurd rfl hne
    · rw [submits_nil, Nat.add_zero, hnone]
      exact Nat.zero_le _
    · rw [submits_nil]
      omega
  | writeFailed hconnected =>
    -- a connected event holds no accepted descriptor
    exact .of_connected hconnected (h.held_eq_nil (.inl hconnected)) (fun _ ↦ rfl) fun _ _ ↦ rfl
  | writeQueued hconnected hsock =>
    exact .of_connected hconnected (h.held_eq_nil (.inl hconnected)) (h.role hconnected)
      fun _ hs ↦ absurd hs hsock
  | writeDeferred hconnected hsock herror hwriting hreg =>
    exact .of_connected hconnected (h.held_eq_nil (.inl hconnected)) (h.role hconnected)
      fun _ hs ↦ absurd ((epollPollerModify_eq_none_iff hreg).mp hs) hsock
  | readFailed hconnected => exact .of_connected hconnected rfl (fun _ ↦ rfl) fun _ _ ↦ rfl
  | readDeferred hconnected hsock =>
    exact .of_connected hconnected rfl (h.role hconnected) fun _ hs ↦ absurd hs hsock

/-- A timeout of the read side closes the socket. The completion was not in the queue, so no
descriptor is lost with it. -/
theorem readExpires (h : v.Accepting) (hreading : v.t.reading = true)
    (hactive : v.t.timeoutRead.active = true) (hbatch : ∀ d, v.batched d = 0)
    (hrole : t'.connected = v.t.connected ∧ t'.listening = v.t.listening) (herror : t'.error = true)
    (hread : t'.reading = false ∧ t'.timeoutRead.active = false ∧ t'.readSlot = v.t.readSlot) :
    Accepting ⟨t', v.queued, v.batched⟩ := by
  obtain ⟨hr, hτ, hslot⟩ := hread
  by_cases hconnected : v.t.connected = true
  · exact .of_connected (hrole.1.trans hconnected) (hslot ▸ h.held_eq_nil (.inl hconnected))
      (fun _ ↦ herror) fun _ _ ↦ herror
  rw [Bool.not_eq_true] at hconnected
  have hu := h.unconnected hconnected
  have hcount : v.queued .read + v.batched .read = 0 := by
    rw [(hu.readTimer hactive).2, hbatch]
  have hheld : v.t.readSlot.held = [] := by
    by_contra hne
    exact (h.slot hne).2.2.2.ne' hcount
  obtain ⟨-, hlistening, alloc, fd, hfd⟩ := hu.accepts hreading
  have hblocked : t'.Blocked := by
    refine ⟨herror, hr, alloc, ?_⟩
    rw [hfd] at hheld
    cases fd with
    | none => exact hslot.trans hfd
    | some fd => cases hheld
  have hnever : ∀ {p : Prop}, t'.listening = false → p := fun hl ↦
    absurd (hl.symm.trans (hrole.2.trans hlistening)) (by decide)
  refine ⟨fun _ ↦ ⟨fun hr' ↦ absurd (hr.symm.trans hr') (by decide), ?_,
    fun hτ' ↦ absurd (hτ.symm.trans hτ') (by decide), fun _ _ _ ↦ hblocked, fun _ _ ↦ hblocked,
    fun _ hl ↦ hnever hl, fun hl ↦ hnever hl⟩, fun hne ↦ absurd (hslot ▸ hheld) hne,
    fun _ _ ↦ herror, fun _ _ _ ↦ herror⟩
  rw [hr]
  exact hcount.le

theorem writeExpires (h : v.Accepting) (hwriting : v.t.writing = true)
    (hactive : v.t.timeoutWrite.active = true) (hbatch : ∀ d, v.batched d = 0)
    (hrole : t'.connected = v.t.connected ∧ t'.listening = v.t.listening) (herror : t'.error = true)
    (hread : t'.reading = v.t.reading ∧ t'.onAccept = v.t.onAccept ∧
      t'.timeoutRead = v.t.timeoutRead ∧ t'.readSlot = v.t.readSlot)
    (hwrite : t'.writing = false ∧ t'.timeoutWrite.active = false) :
    Accepting ⟨t', v.queued, v.batched⟩ := by
  obtain ⟨hr, hon, hτ, hslot⟩ := hread
  refine ⟨fun hconnected ↦ ?_, ?_, fun _ _ ↦ herror, fun _ _ _ ↦ herror⟩
  · have hu := h.unconnected (hrole.1.symm.trans hconnected)
    have hblocked : t'.listening = true → t'.Blocked := fun hl ↦
      Blocked.mono (hu.connects (hrole.2.symm.trans hl) (.inl hwriting)) (fun _ ↦ herror) hr hslot
    refine ⟨?_, ?_, ?_, fun _ hl _ ↦ hblocked hl, fun hl _ ↦ hblocked hl,
      fun _ hl _ ↦ ⟨hwrite.1, ?_, hwrite.2⟩,
      fun _ hτ' ↦ absurd (hwrite.2.symm.trans hτ') (by decide)⟩
    · rw [hr, hon, hrole.2, hslot]
      exact hu.accepts
    · rw [hr]
      exact hu.reads
    · rw [hτ, hr]
      exact hu.readTimer
    · rw [hu.writeTimer (hrole.2.symm.trans hl) hactive, hbatch]
  · rw [hslot, hrole.1, hrole.2, hr]
    exact h.slot

theorem timeout (h : v.Accepting) (hactive : (v.t.timeout d).active = true)
    (hbatch : ∀ d, v.batched d = 0) (ho : TimeoutOutcome v.t d sys t' effects) :
    Accepting ⟨t', v.queued, v.batched⟩ := by
  cases ho with
  | readIgnored hd hτ her =>
    refine h.quiet ⟨rfl, rfl, rfl, fun _ ↦ rfl, rfl, id, id, fun he ↦ ?_, fun hτ' ↦ ?_, id,
      fun _ ↦ id⟩ rfl le_rfl fun _ ↦ le_rfl
    · rcases her with rfl | rfl
      · exact he
      · rfl
    · exact absurd (hτ.symm.trans hτ') (by decide)
  | writeIgnored hd hτ her =>
    refine h.quiet ⟨rfl, rfl, rfl, fun _ ↦ rfl, rfl, id, id, fun he ↦ ?_, id, fun hτ' ↦ ?_,
      fun _ ↦ id⟩ rfl le_rfl fun _ ↦ le_rfl
    · rcases her with rfl | rfl
      · exact he
      · rfl
    · exact absurd (hτ.symm.trans hτ') (by decide)
  | acceptExpired hd hto hreading hop | readExpired hd hto hreading hop =>
    subst hd
    exact h.readExpires hreading hactive hbatch ⟨rfl, rfl⟩ rfl ⟨rfl, rfl, rfl⟩
  | connectExpired hd hto hwriting hop hreg | writeExpired hd hto hwriting hop hreg =>
    subst hd
    exact h.writeExpires hwriting hactive hbatch ⟨rfl, rfl⟩ rfl ⟨rfl, rfl, rfl, rfl⟩ ⟨rfl, rfl⟩

/-- An event that waits for a connection listens, and has not lost its socket. -/
theorem of_reading (h : v.Accepting) (hconnected : v.t.connected = false)
    (hreading : v.t.reading = true) :
    v.Unconnected ∧ ¬v.t.Blocked ∧ v.t.listening = true := by
  have hu := h.unconnected hconnected
  exact ⟨hu, fun hb ↦ absurd (hreading.symm.trans hb.reading) (by decide),
    (hu.accepts hreading).2.1⟩

theorem offer {completed : Bool} (h : v.Accepting) (hnone : v.queued d = 0 ∧ v.batched d = 0)
    (ho : OfferOutcome v.t d sys fresh t' completed effects) :
    Accepting ⟨t', v.queued,
      Function.update v.batched d (v.batched d + if completed then 1 else 0)⟩ := by
  cases ho with
  | nothing =>
    rw [if_neg Bool.false_ne_true, Nat.add_zero, Function.update_eq_self]
    exact h.quiet .of_rfl rfl le_rfl fun _ ↦ le_rfl
  | read hd hreading hconnected | write hd hwriting hconnected =>
    exact .of_connected hconnected (h.held_eq_nil (.inl hconnected)) (h.role hconnected)
      (h.lost hconnected)
  | accepted hd hreading hconnected =>
    subst hd
    obtain ⟨hu, hnot, hlistening⟩ := h.of_reading hconnected hreading
    refine accept hu hnot ⟨hconnected, hlistening⟩ hlistening rfl rfl id le_rfl
      (fun _ ↦ ⟨(hu.accepts hreading).1, _, _, rfl⟩) ?_ (fun _ ↦ ⟨hreading, hnone.1⟩)
      fun _ ↦ ⟨hreading, ?_⟩
    · rw [Function.update_self, hnone.1, hnone.2]
      exact (congrArg Bool.toNat hreading).ge
    · rw [Function.update_self, if_pos rfl]
      omega
  | acceptFailed hd hreading hconnected =>
    subst hd
    obtain ⟨hu, hnot, hlistening⟩ := h.of_reading hconnected hreading
    have hclear : ∃ alloc, v.t.readSlot.clearSocket = .accept alloc none := by
      cases v.t.readSlot <;> exact ⟨_, rfl⟩
    obtain ⟨alloc, hclear⟩ := hclear
    refine accept hu hnot ⟨hconnected, hlistening⟩ hlistening rfl rfl id le_rfl
      (fun _ ↦ ⟨(hu.accepts hreading).1, alloc, none, hclear⟩) ?_ (fun _ ↦ ⟨hreading, hnone.1⟩)
      fun hne ↦ absurd (congrArg ReadSlot.held hclear) hne
    rw [Function.update_self, hnone.1, hnone.2]
    exact (congrArg Bool.toNat hreading).ge
  | connect hd hwriting hconnected =>
    subst hd
    have hu := h.unconnected hconnected
    refine ⟨fun _ ↦ ⟨hu.accepts, hu.reads, hu.readTimer, fun hd hl hs ↦ ?_, fun hl _ ↦ ?_,
      fun hd hl hs ↦ ?_, hu.writeTimer⟩, h.slot, h.role, h.lost⟩
    · exact Blocked.mono (hu.closed hd hl hs) id rfl rfl
    · exact Blocked.mono (hu.connects hl (.inl hwriting)) id rfl rfl
    · exact absurd ((hu.unopened hd hl hs).1.symm.trans hwriting) (by decide)

theorem dispatch_connected {m : Mask} {k : Option Socket} {er : Bool} {q b : Dir → ℕ}
    (h : v.Accepting) (hn : Noted v.t d sys m k er) (hconnected : v.t.connected = true)
    (hrole : t'.connected = true ∧ t'.listening = v.t.listening)
    (hslot : t'.readSlot = v.t.readSlot)
    (herror : t'.error = er) (hsock : t'.sock = k) (hdeleted : t'.deleted = v.t.deleted) :
    Accepting ⟨t', q, b⟩ := by
  refine .of_connected hrole.1 (hslot ▸ h.held_eq_nil (.inl hconnected)) (fun hl ↦ ?_)
    fun hd hs ↦ ?_
  · exact herror.trans (hn.mono.1 (h.role hconnected (hrole.2.symm.trans hl)))
  · exact herror.trans (hn.mono.1 (h.lost hconnected (hdeleted.symm.trans hd)
      (hn.mono.2 (hsock.symm.trans hs))))

theorem eq_read (h : v.Accepting) (hbatch : 0 < v.batched d) (hconnected : v.t.connected = false)
    (hreading : v.t.reading = true) : d = .read := by
  obtain ⟨hu, hnot, hlistening⟩ := h.of_reading hconnected hreading
  cases d with
  | read => rfl
  | write => exact absurd (hu.connects hlistening (.inr (by omega))) hnot

/-- A completion for an event that is not connected and does not listen is the one of a connect. -/
theorem eq_write (h : v.Accepting) (hbatch : 0 < v.batched d) (hconnected : v.t.connected = false)
    (hlistening : v.t.listening = false) : d = .write := by
  cases d with
  | write => rfl
  | read =>
    have hu := h.unconnected hconnected
    have hl := (hu.accepts (hu.of_reads (by omega))).2.1
    exact absurd (hlistening.symm.trans hl) (by decide)

theorem dispatch_accept {m : Mask} {k : Option Socket} {er : Bool} (h : v.Accepting)
    (hbatch : 0 < v.batched d) (hn : Noted v.t d sys m k er) (hconnected : v.t.connected = false)
    (hreading : v.t.reading = true)
    (hrole : t'.connected = false ∧ t'.listening = v.t.listening)
    (hread : t'.reading = false ∧ t'.timeoutRead.active = false ∧ t'.readSlot.held = [])
    (hwriting : t'.writing = v.t.writing) (hsock : t'.sock = k)
    (hdeleted : t'.deleted = v.t.deleted) :
    Accepting ⟨t', v.queued, Function.update v.batched d (v.batched d - 1)⟩ := by
  obtain ⟨hu, hnot, hlistening⟩ := h.of_reading hconnected hreading
  obtain rfl := h.eq_read hbatch hconnected hreading
  obtain ⟨hr, hτ, hheld⟩ := hread
  refine accept hu hnot ⟨hrole.1, hrole.2.trans hlistening⟩ hlistening hwriting hdeleted
    (fun hs ↦ hn.mono.2 (hsock.symm.trans hs)) le_rfl
    (fun hr' ↦ absurd (hr.symm.trans hr') (by decide)) ?_
    (fun hτ' ↦ absurd (hτ.symm.trans hτ') (by decide)) fun hne ↦ absurd hheld hne
  have hreads := hu.reads
  rw [hreading, Bool.toNat_true] at hreads
  rw [hr, Bool.toNat_false, Function.update_self]
  omega

theorem dispatch_connect {m : Mask} {k : Option Socket} {er : Bool} (h : v.Accepting)
    (hd : d = .write) (hn : Noted v.t d sys m k er)
    (hq : (t'.connected = v.t.connected ∧ t'.listening = v.t.listening ∧
        t'.reading = v.t.reading ∧ t'.readSlot = v.t.readSlot) ∧
      (t'.reading = true → t'.onAccept = v.t.onAccept))
    (hwriting : t'.writing = true → v.t.writing = true)
    (hτ : (t'.timeoutRead.active = true → v.t.timeoutRead.active = true) ∧
      (t'.timeoutWrite.active = true → v.t.timeoutWrite.active = true))
    (herror : t'.error = er) (hsock : t'.sock = k) (hdeleted : t'.deleted = v.t.deleted) :
    Accepting ⟨t', v.queued, Function.update v.batched d (v.batched d - 1)⟩ := by
  subst hd
  obtain ⟨⟨hconnected, hlistening, hreading, hslot⟩, hon⟩ := hq
  refine h.quiet ⟨hconnected, hlistening, hreading, hon, hslot, fun hd ↦ hdeleted.symm.trans hd,
    hwriting, fun he ↦ herror.trans (hn.mono.1 he), hτ.1, hτ.2,
    fun _ hs ↦ hn.mono.2 (hsock.symm.trans hs)⟩ rfl ?_ fun _ ↦ le_rfl
  rw [Function.update_self]
  omega

theorem dispatch {client : Option Tcp} (h : v.Accepting) (hbatch : 0 < v.batched d)
    (ho : DispatchOutcome v.t d sys fresh t' client effects) :
    Accepting ⟨t', v.queued, Function.update v.batched d (v.batched d - 1)⟩ := by
  cases ho with
  | readDone hn hd hconnected | writeDone hn hd hconnected | readStale hn hd hconnected
  | writeStale hn hd hconnected =>
    exact h.dispatch_connected hn hconnected ⟨hconnected, rfl⟩ rfl rfl rfl rfl
  | acceptDone hn hconnected hlistening hreading
  | acceptDropped hn hconnected hlistening hreading =>
    exact h.dispatch_accept hbatch hn hconnected hreading ⟨hconnected, rfl⟩ ⟨rfl, rfl, rfl⟩ rfl rfl
      rfl
  | acceptStale hn hconnected hlistening hlost hr hτ =>
    have hu := h.unconnected hconnected
    have hd : d = .write := by
      cases d with
      | write => rfl
      | read =>
        have hreading := hu.of_reads (by omega)
        rcases hlost with hlost | hlost
        · exact absurd (hlost.symm.trans hreading) (by decide)
        · exact absurd hlost (hu.accepts hreading).1
    have hblocked := hu.connects hlistening (.inr (by rw [← hd]; omega))
    obtain ⟨alloc, hslot⟩ := hblocked.slot
    refine h.dispatch_connect hd hn ⟨⟨rfl, rfl, hr.trans hblocked.reading.symm, ?_⟩,
      fun hr' ↦ absurd (hr.symm.trans hr') (by decide)⟩ id ⟨fun hτ' ↦ ?_, id⟩ rfl rfl rfl
    · rw [hslot]
      rfl
    · rcases hτ with rfl | rfl
      · exact hτ'
      · cases hτ'
  | connectDone hn hconnected hlistening hwriting hop hdeleted hstatus hreg =>
    refine .of_connected rfl ?_ (fun hl ↦ absurd (hlistening.symm.trans hl) (by decide))
      fun hd hs ↦ ?_
    · by_contra hne
      exact absurd (hlistening.symm.trans (h.slot hne).2.1) (by decide)
    · have hsock := hn.mono.2 ((epollPollerModify_eq_none_iff hreg).mp hs)
      have := ((h.unconnected hconnected).unopened hd hlistening hsock).1
      exact absurd (this.symm.trans hwriting) (by decide)
  | connectFailed hn hconnected hlistening hwriting =>
    exact h.dispatch_connect (h.eq_write hbatch hconnected hlistening) hn
      ⟨⟨rfl, rfl, rfl, rfl⟩, fun _ ↦ rfl⟩ nofun ⟨id, nofun⟩ rfl rfl rfl
  | connectStale hn hconnected hlistening hlost hw hτ =>
    refine h.dispatch_connect (h.eq_write hbatch hconnected hlistening) hn
      ⟨⟨rfl, rfl, rfl, rfl⟩, fun _ ↦ rfl⟩ (fun hw' ↦ absurd (hw.symm.trans hw') (by decide))
      ⟨id, fun hτ' ↦ ?_⟩ rfl rfl rfl
    rcases hτ with rfl | rfl
    · exact hτ'
    · cases hτ'

end TcpView.Accepting

theorem TcpStep.accepting {v v' : TcpView} {a : TcpAct} (hstep : TcpStep v a v')
    (h : v.Accepting) : v'.Accepting := by
  cases hstep with
  | call hlive hkernel hc => exact h.call hlive hc
  | timeout hactive hbatch ho => exact h.timeout hactive hbatch ho
  | offer hnone ho => exact h.offer hnone ho
  | dispatch hbatch ho => exact h.dispatch hbatch ho
  | free hlive hpending =>
    exact h.quiet ⟨rfl, rfl, rfl, fun _ ↦ rfl, rfl, nofun, id, id, nofun, nofun, nofun⟩ rfl le_rfl
      fun _ ↦ le_rfl
  | link =>
    exact h.quiet ⟨rfl, rfl, rfl, fun _ ↦ rfl, rfl, id, id, id, id, id, fun _ ↦ id⟩ rfl le_rfl
      fun _ ↦ le_rfl
  | poll hbatch hmoved =>
    refine h.quiet .of_rfl ?_ ?_ fun d ↦ ?_
    · rw [hmoved, hbatch]
      rfl
    · rw [hmoved, hbatch]
      exact le_rfl
    · rw [← hmoved d]
      exact Nat.le_add_right _ _

theorem IoLoop.NewView.accepting {v : TcpView} (h : NewView v) : v.Accepting := by
  cases h with
  | tcpNew =>
    exact ⟨fun _ ↦ ⟨nofun, Nat.zero_le _, nofun, nofun, nofun, fun _ _ _ ↦ ⟨rfl, rfl, rfl⟩, nofun⟩,
      fun hne ↦ absurd rfl hne, nofun, nofun⟩
  | client u fd => exact .of_connected rfl rfl nofun nofun

end Nanoev
