import Nanoev.Iocp.Loop

/-!
# Late packets

On a completion port an operation ends twice: for the client when its timeout expires or its packet
arrives, whichever comes first, and for the library when its packet arrives. Each direction of an
event is therefore in one of three states (`Side`): there is no operation; an operation is pending,
with its flag, its callback and perhaps its timeout set; or its packet is late, with the flag set
and the callback gone.

A call can break this, in two ways. When the timer heap has no memory for the timeout, the call
fails after the system has taken over the context, and the flag is not set. And the error state can
be left behind by a second `nanoev_tcp_connect`, which uses a context that may still be outstanding.
-/

namespace Nanoev.Iocp

open Transition
open Tcp (opens)

/-! ## One event -/

/-- The state of a direction of an event, with the operations outstanding there. -/
inductive Side (t : Tcp) (settled : List ℕ) (d : Dir) : List ℕ → Prop
  | idle (hflag : t.flag d = false) (hcb : ∀ k, k.dir = d → callback t k = none)
      (hτ : (t.timeout d).active = false) : Side t settled d []
  | pending {op} (hflag : t.flag d = true) (hcb : callback t (kindOf t.connected d) = some op)
      (hrest : ∀ k, k.dir = d → k ≠ kindOf t.connected d → callback t k = none)
      (hτ : (t.timeout d).active = true → (t.timeout d).op = timeoutOp (kindOf t.connected d))
      (hopen : op ∉ settled) : Side t settled d [op]
  | late {op} (hflag : t.flag d = true) (hcb : ∀ k, k.dir = d → callback t k = none)
      (hτ : (t.timeout d).active = false) (hsettled : op ∈ settled) : Side t settled d [op]

/-- What holds of an event, with the operations it has outstanding. -/
structure Event (t : Tcp) (settled : List ℕ) (out : Dir → List ℕ) : Prop where
  side : ∀ d, Side t settled d (out d)
  proper : ∀ d, out d ≠ [] → Proper t d
  listens : t.listening = true → t.connected = false
  unopened : t.sock = none → t.error = false → t.deleted = false →
    t.connected = false ∧ t.listening = false ∧ ∀ d, out d = []
  deleted : t.deleted = true → ∀ d, (t.timeout d).active = false

/-- An event whose operation has timed out when it was the only one. -/
structure Spent (t : Tcp) : Prop where
  error : t.error = true
  sock : t.sock = none
  errorCode : t.errorCode = socketTimeoutError.1
  callback : ∀ k, callback t k = none
  timeout : ∀ d, (t.timeout d).active = false

variable {t t' : Tcp} {settled settled' : List ℕ} {d : Dir} {out : Dir → List ℕ} {l : List ℕ}
  {op : ℕ} {sys : Sys} {c : TcpCall} {effects : List IoEffect} {ret : RetCode}

theorem kindOf_dir (connected : Bool) (d : Dir) : (kindOf connected d).dir = d := by
  cases connected <;> cases d <;> rfl

namespace Side

/-- A direction stays in its state when its fields do, apart from a timeout that is deleted. -/
theorem congr (h : Side t settled d l) (hflag : t'.flag d = t.flag d)
    (hcb : ∀ k, k.dir = d → callback t' k = callback t k)
    (hτ : t'.timeout d = t.timeout d ∨ (t'.timeout d).active = false)
    (hc : t'.connected = t.connected ∨ l = [])
    (hset : ∀ op ∈ l, op ∈ settled' ↔ op ∈ settled) : Side t' settled' d l := by
  have hinactive : (t.timeout d).active = false → (t'.timeout d).active = false := by
    intro h
    rcases hτ with hτ | hτ
    · rw [hτ, h]
    · exact hτ
  cases h with
  | idle hf hnone hoff =>
    exact .idle (hflag.trans hf) (fun k hk ↦ (hcb k hk).trans (hnone k hk)) (hinactive hoff)
  | pending hf hsome hrest hon hopen =>
    have hc : t'.connected = t.connected := hc.resolve_right (List.cons_ne_nil _ _)
    refine .pending (hflag.trans hf) ?_ ?_ ?_ (mt (hset _ (List.mem_singleton_self _)).mp hopen)
    · rw [hc, hcb _ (kindOf_dir _ _), hsome]
    · intro k hk hne
      rw [hc] at hne
      rw [hcb k hk, hrest k hk hne]
    · intro hactive
      rcases hτ with hτ | hτ
      · rw [hc, hτ]
        exact hon (hτ ▸ hactive)
      · rw [hτ] at hactive
        cases hactive
  | late hf hnone hoff hsettled =>
    exact .late (hflag.trans hf) (fun k hk ↦ (hcb k hk).trans (hnone k hk)) (hinactive hoff)
      ((hset _ (List.mem_singleton_self _)).mpr hsettled)

theorem eq_nil (h : Side t settled d l) (hflag : t.flag d = false) : l = [] := by
  cases h with
  | idle => rfl
  | pending hf | late hf =>
    rw [hflag] at hf
    cases hf

theorem flag_of_mem (h : Side t settled d l) (hop : op ∈ l) : t.flag d = true := by
  cases h with
  | idle => cases hop
  | pending hf | late hf => exact hf

theorem eq_singleton (h : Side t settled d l) (hop : op ∈ l) : l = [op] := by
  cases h with
  | idle => cases hop
  | pending | late => rw [List.mem_singleton.mp hop]

theorem start {k : OpKind} (h : Side t settled d []) (hk : kindOf t'.connected d = k)
    (hflag : t'.flag d = true) (hcb : ∀ j, callback t' j = if j = k then some op else callback t j)
    (hτ : t'.timeout d = t.timeout d ∨ (t'.timeout d).op = timeoutOp k)
    (hop : op ∉ settled) : Side t' settled d [op] := by
  cases h with
  | idle _ hnone hoff =>
    refine .pending hflag ?_ ?_ ?_ hop
    · rw [hk, hcb, if_pos rfl]
    · intro j hj hne
      rw [hk] at hne
      rw [hcb, if_neg hne, hnone j hj]
    · intro hactive
      rcases hτ with hτ | hτ
      · rw [hτ, hoff] at hactive
        cases hactive
      · rw [hk, hτ]

end Side

theorem store_eq (t : Tcp) (d : Dir) (x : IoContext) :
    ∃ cr cw, store t d x = { t with ctxRead := cr, ctxWrite := cw } := by
  cases d with
  | read => exact ⟨x, t.ctxWrite, rfl⟩
  | write => exact ⟨t.ctxRead, x, rfl⟩

theorem Spent.store (h : Spent t) (d : Dir) (x : IoContext) : Spent (store t d x) := by
  obtain ⟨cr, cw, hstore⟩ := store_eq t d x
  rw [hstore]
  refine ⟨h.error, h.sock, h.errorCode, fun k ↦ ?_, fun e ↦ ?_⟩
  · rw [← h.callback k]
    cases k <;> rfl
  · rw [← h.timeout e]
    cases e <;> rfl

namespace Event

/-- An event stays as it is when it is looked at with another record of what has happened. -/
theorem settled_congr (h : Event t settled out)
    (hset : ∀ d, ∀ op ∈ out d, op ∈ settled' ↔ op ∈ settled) : Event t settled' out where
  side := fun d ↦ (h.side d).congr rfl (fun _ _ ↦ rfl) (.inl rfl) (.inl rfl) (hset d)
  proper := h.proper
  listens := h.listens
  unopened := h.unopened
  deleted := h.deleted

theorem store (h : Event t settled out) (d : Dir) (x : IoContext) :
    Event (store t d x) settled out := by
  obtain ⟨cr, cw, hstore⟩ := store_eq t d x
  rw [hstore]
  refine ⟨fun e ↦ (h.side e).congr rfl ?_ (.inl ?_) (.inl rfl) fun _ _ ↦ Iff.rfl, h.proper,
    h.listens, h.unopened, fun hdel e ↦ ?_⟩
  · rintro (_ | _ | _ | _) - <;> rfl
  · cases e <;> rfl
  · rw [← h.deleted hdel e]
    cases e <;> rfl

theorem of_fledged (h : Fledged t) (hout : ∀ d, out d = []) : Event t settled out where
  side := fun d ↦ by
    rw [hout d]
    exact .idle (h.flag d) (fun k _ ↦ h.callback k) (h.timeout d)
  proper := fun d hd ↦ absurd (hout d) hd
  listens := by
    rw [h.listening]
    exact nofun
  unopened := fun hsock ↦ absurd hsock h.sock
  deleted := by
    rw [h.deleted]
    exact nofun

theorem tcpNew (hout : ∀ d, out d = []) : Event .tcpNew settled out where
  side := fun d ↦ by
    rw [hout d]
    refine .idle ?_ ?_ ?_
    · cases d <;> rfl
    · rintro (_ | _ | _ | _) - <;> rfl
    · cases d <;> rfl
  proper := fun d hd ↦ absurd (hout d) hd
  listens := nofun
  unopened := fun _ _ _ ↦ ⟨rfl, rfl, hout⟩
  deleted := nofun

theorem freed (h : Event t settled out) :
    Event { t.tcpFree.1 with deleted := true } settled out := by
  rw [Tcp.tcpFree, Tcp.closeTcpSocket_eq]
  have hoff : ∀ d, (Tcp.timeout { t with
      timeoutRead := Tcp.tcpTimeoutDel, timeoutWrite := Tcp.tcpTimeoutDel, sock := none
      deleted := true } d).active = false := by
    rintro (_ | _) <;> rfl
  refine ⟨fun d ↦ (h.side d).congr ?_ ?_ (.inr (hoff d)) (.inl rfl) fun _ _ ↦ Iff.rfl, h.proper,
    h.listens, nofun, fun _ ↦ hoff⟩
  · cases d <;> rfl
  · rintro (_ | _ | _ | _) - <;> rfl

end Event

def started (out : Dir → List ℕ) (op : ℕ) (effects : List IoEffect) (d : Dir) : List ℕ :=
  out d ++ if .submit d ∈ effects then [op] else []

theorem started_of_not_mem (h : .submit d ∉ effects) : started out op effects d = out d := by
  rw [started, if_neg h, List.append_nil]

theorem started_of_mem (h : .submit d ∈ effects) (hout : out d = []) :
    started out op effects d = [op] := by
  rw [started, if_pos h, hout, List.nil_append]

theorem eq_or_eq_other (d e : Dir) : e = d ∨ e = other d := by
  cases d <;> cases e <;> decide

theorem other_ne (d : Dir) : other d ≠ d := by
  cases d <;> decide

theorem Event.start {k : OpKind} (h : Event t settled out) (hidle : out k.dir = [])
    (hk : kindOf t'.connected k.dir = k) (hproper : Proper t' k.dir)
    (hcb : ∀ j, callback t' j = if j = k then some op else callback t j)
    (hflag : t'.flag k.dir = true ∧ t'.flag (other k.dir) = t.flag (other k.dir))
    (hτ : Tcp.Armed (t.timeout k.dir) (t'.timeout k.dir) (timeoutOp k) ∧
      t'.timeout (other k.dir) = t.timeout (other k.dir))
    (hkept : (t'.connected, t'.listening) = (t.connected, t.listening)) (hsock : t'.sock ≠ none)
    (hdeleted : t'.deleted = false) (hsubmit : ∀ d, .submit d ∈ effects ↔ d = k.dir)
    (hop : op ∉ settled) : Event t' settled (started out op effects) := by
  obtain ⟨hconnected, hlistening⟩ := Prod.mk.inj hkept
  have hstarted : started out op effects k.dir = [op] :=
    started_of_mem ((hsubmit _).mpr rfl) hidle
  have hother : started out op effects (other k.dir) = out (other k.dir) :=
    started_of_not_mem (mt (hsubmit _).mp (other_ne _))
  refine ⟨fun d ↦ ?_, fun d hd ↦ ?_, ?_, fun hnone ↦ absurd hnone hsock, ?_⟩
  · rcases eq_or_eq_other k.dir d with rfl | rfl
    · have hside := h.side k.dir
      rw [hidle] at hside
      rw [hstarted]
      refine hside.start hk hflag.1 hcb ?_ hop
      rcases hτ.1 with hτ | ⟨-, hτ⟩
      · exact .inl hτ
      · exact .inr (by rw [hτ])
    · rw [hother]
      refine (h.side _).congr hflag.2 (fun j hj ↦ ?_) (.inl hτ.2) (.inl hconnected)
        fun _ _ ↦ Iff.rfl
      rw [hcb, if_neg]
      rintro rfl
      exact other_ne _ hj.symm
  · rcases eq_or_eq_other k.dir d with rfl | rfl
    · exact hproper
    · rw [hother] at hd
      have := h.proper _ hd
      rwa [Proper, ← hconnected, ← hlistening] at this
  · rw [hlistening, hconnected]
    exact h.listens
  · rw [hdeleted]
    exact nofun

/-- **A call** that reports an operation which the system has taken over. -/
theorem Event.call (h : Event t settled out) (hout : CallOutcome t op sys c t' effects ret)
    (hdeleted : t.deleted = false) (hsober : opens c = true → t.error = false)
    (hreported : ret = .success ∨ ∀ d, .submit d ∉ effects) (hop : op ∉ settled) :
    Event t' settled (started out op effects) := by
  have hundeleted : ∀ {P : Prop}, t.deleted = true → P := by
    intro P hd
    rw [hdeleted] at hd
    cases hd
  have hsame : (∀ d, .submit d ∉ effects) → started out op effects = out := fun hnone ↦
    funext fun d ↦ started_of_not_mem (hnone d)
  -- a call that opens a socket finds an event without a history
  have hfresh : opens c = true → t.sock = none →
      t.connected = false ∧ t.listening = false ∧ ∀ d, out d = [] := fun hc hsock ↦
    h.unopened hsock (hsober hc) hdeleted
  cases hout with
  | refused =>
    rw [hsame nofun]
    exact h
  | failed hk hτr hτw hc hsubmit =>
    rw [hsame hsubmit]
    refine ⟨fun d ↦ (h.side d).congr ?_ ?_ ?_ (.inl rfl) fun _ _ ↦ Iff.rfl, h.proper, h.listens,
      fun _ herror ↦ ?_, hundeleted⟩
    · cases d <;> rfl
    · rintro (_ | _ | _ | _) - <;> rfl
    · cases d with
      | read => exact hτr.imp_right fun hτ ↦ congrArg TcpTimeout.active hτ.1
      | write => exact hτw.imp_right fun hτ ↦ congrArg TcpTimeout.active hτ.1
    · cases herror
  | listened hc hsock hsubmit =>
    rw [hsame hsubmit]
    obtain ⟨hconnected, -, hnone⟩ := hfresh hc hsock
    refine ⟨fun d ↦ (h.side d).congr ?_ ?_ (.inl ?_) (.inl rfl) fun _ _ ↦ Iff.rfl,
      fun d hd ↦ absurd (hnone d) hd, fun _ ↦ hconnected,
      fun hsock ↦ absurd hsock (Option.some_ne_none _), hundeleted⟩
    · cases d <;> rfl
    · rintro (_ | _ | _ | _) - <;> rfl
    · cases d <;> rfl
  | connectStarted hc hsock hτ hsubmit =>
    obtain ⟨hconnected, hlistening, hnone⟩ := hfresh hc hsock
    refine h.start (k := .connect) (hnone _) (if_neg (by rw [hconnected]; decide))
      (.inr (.inr ⟨hlistening, rfl⟩)) ?_ ⟨rfl, rfl⟩ ⟨hτ, rfl⟩ rfl (Option.some_ne_none _) hdeleted
      hsubmit hop
    rintro (_ | _ | _ | _) <;> rfl
  | acceptStarted hsock herror hlistening hreading hτ hsubmit =>
    have hconnected := h.listens hlistening
    refine h.start (k := .accept) ((h.side .read).eq_nil hreading)
      (if_neg (by rw [hconnected]; decide)) (.inr (.inl ⟨hlistening, rfl⟩)) ?_ ⟨rfl, rfl⟩ ⟨hτ, rfl⟩
      rfl hsock hdeleted hsubmit hop
    rintro (_ | _ | _ | _) <;> rfl
  | readStarted hsock herror hconnected hreading hτ hsubmit =>
    refine h.start (k := .read) ((h.side .read).eq_nil hreading) (if_pos hconnected)
      (.inl hconnected) ?_ ⟨rfl, rfl⟩ ⟨hτ, rfl⟩ rfl hsock hdeleted hsubmit hop
    rintro (_ | _ | _ | _) <;> rfl
  | writeStarted hsock herror hconnected hwriting hτ hsubmit =>
    refine h.start (k := .write) ((h.side .write).eq_nil hwriting) (if_pos hconnected)
      (.inl hconnected) ?_ ⟨rfl, rfl⟩ ⟨hτ, rfl⟩ rfl hsock hdeleted hsubmit hop
    rintro (_ | _ | _ | _) <;> rfl
  | lost hsubmit htimeout hτ hidle =>
    rcases hreported with hret | hnone
    · cases hret
    · exact absurd hsubmit (hnone _)

theorem Spent.call (h : Spent t) (hout : CallOutcome t op sys c t' effects ret)
    (hsober : opens c = true → t.error = false)
    (hreported : ret = .success ∨ ∀ d, .submit d ∉ effects) : Spent t' := by
  have hclosed : opens c = true → False := by
    intro hc
    have herror := hsober hc
    rw [h.error] at herror
    cases herror
  cases hout with
  | refused => exact h
  | failed hk hτr hτw hc hsubmit => exact (hc.elim hclosed fun hsock ↦ hsock h.sock).elim
  | listened hc | connectStarted hc => exact (hclosed hc).elim
  | acceptStarted hsock | readStarted hsock | writeStarted hsock => exact absurd h.sock hsock
  | lost hsubmit =>
    rcases hreported with hret | hnone
    · cases hret
    · exact absurd hsubmit (hnone _)

/-! ### Packets and timeouts -/

/-- **A packet** leaves its direction without an operation. -/
theorem Event.completed {calls : List Call} (h : Event t settled out) (hop : op ∈ out d)
    (hc : Completed t d t' calls) (hset : ∀ e ≠ d, ∀ op ∈ out e, op ∈ settled' ↔ op ∈ settled) :
    Event t' settled' (Function.update out d []) := by
  obtain ⟨hdeleted, hkept⟩ := Prod.mk.inj hc.kept
  obtain ⟨hlistening, hsock⟩ := Prod.mk.inj hkept
  have hproper := h.proper d (List.ne_nil_of_mem hop)
  have hupdate : Function.update out d [] (other d) = out (other d) :=
    Function.update_of_ne (other_ne d) _ _
  -- the callbacks of the direction are gone
  have hcb : ∀ k, k.dir = d → callback t' k = none := by
    intro k hk
    rw [hc.taken k]
    by_cases hkind : k = kindOf t.connected d
    · rw [if_pos hkind]
    · rw [if_neg hkind]
      cases hside : out d with
      | nil =>
        rw [hside] at hop
        cases hop
      | cons a l =>
        have := h.side d
        rw [hside] at this
        cases this with
        | pending _ _ hrest => exact hrest k hk hkind
        | late _ hnone => exact hnone k hk
  have hcb' : ∀ k, k.dir = other d → callback t' k = callback t k := by
    intro k hk
    rw [hc.taken k, if_neg]
    rintro rfl
    rw [kindOf_dir] at hk
    exact other_ne d hk.symm
  -- when a connect is completed, the other direction is not used
  have hconnected : t'.connected = t.connected ∨ out (other d) = [] := by
    refine hc.connected.imp_right fun ⟨hconnected, hlistening⟩ ↦ ?_
    by_contra hne
    have hother := h.proper _ hne
    simp only [Proper, hconnected, hlistening, Bool.false_eq_true, false_and, false_or, true_and]
      at hproper hother
    rw [hproper] at hother
    cases hother
  refine ⟨fun e ↦ ?_, fun e he ↦ ?_, fun hl ↦ ?_, fun hs herror hdel ↦ ?_, fun hdel e ↦ ?_⟩
  · rcases eq_or_eq_other d e with rfl | rfl
    · rw [Function.update_self]
      exact .idle hc.flag hcb hc.timeout
    · rw [hupdate]
      exact (h.side _).congr hc.flag_other hcb' (.inl hc.timeout_other) hconnected
        (hset _ (other_ne d))
  · rcases eq_or_eq_other d e with rfl | rfl
    · rw [Function.update_self] at he
      exact absurd rfl he
    · rw [hupdate] at he
      have := h.proper _ he
      rwa [Proper, ← hconnected.resolve_right he, ← hlistening] at this
  · rw [hlistening] at hl
    rcases hc.connected with hconnected | ⟨-, hnot⟩
    · rw [hconnected]
      exact h.listens hl
    · rw [hl] at hnot
      cases hnot
  · -- an event with an operation has a socket, or it is in the error state
    have herror' : t.error = false := by
      by_contra ht
      rw [hc.error (Bool.eq_true_of_not_eq_false ht)] at herror
      cases herror
    obtain ⟨-, -, hnone⟩ := h.unopened (hsock ▸ hs) herror' (hdeleted ▸ hdel)
    rw [hnone d] at hop
    cases hop
  · rcases eq_or_eq_other d e with rfl | rfl
    · exact hc.timeout
    · rw [hc.timeout_other]
      exact h.deleted (hdeleted ▸ hdel) _

theorem Spent.completed {calls : List Call} (h : Spent t) (hc : Completed t d t' calls) :
    Spent t' where
  error := hc.error h.error
  sock := by
    obtain ⟨-, hkept⟩ := Prod.mk.inj hc.kept
    rw [(Prod.mk.inj hkept).2, h.sock]
  errorCode := (hc.late (h.callback _)).2
  callback := by
    intro k
    rw [hc.taken k, h.callback k, ite_self]
  timeout := by
    intro e
    rcases eq_or_eq_other d e with rfl | rfl
    · exact hc.timeout
    · rw [hc.timeout_other]
      exact h.timeout _

/-- **A timeout** leaves the packet late. -/
theorem Event.expired {calls : List Call} (h : Event t settled out) (hout : out d = [op])
    (hrest : ∀ k, k.dir = d → k ≠ kindOf t.connected d → callback t k = none)
    (hx : Expired t d (kindOf t.connected d) op t' calls) (hop : op ∈ settled')
    (hset : ∀ e ≠ d, ∀ op ∈ out e, op ∈ settled' ↔ op ∈ settled) : Event t' settled' out := by
  obtain ⟨hdeleted, hkept⟩ := Prod.mk.inj hx.kept
  obtain ⟨hlistening, hconnected⟩ := Prod.mk.inj hkept
  refine ⟨fun e ↦ ?_, fun e he ↦ ?_, ?_, fun _ herror ↦ ?_, fun hdel e ↦ ?_⟩
  · rcases eq_or_eq_other d e with rfl | rfl
    · rw [hout]
      refine .late ?_ (fun k hk ↦ ?_) hx.timeout hop
      · rw [hx.flag]
        exact (h.side e).flag_of_mem (by rw [hout]; exact List.mem_singleton_self op)
      · rw [hx.taken k]
        split
        · rfl
        · next hne => exact hrest k hk hne
    · refine (h.side _).congr (hx.flag _) (fun k hk ↦ ?_) (.inl hx.timeout_other) (.inl hconnected)
        (hset _ (other_ne d))
      rw [hx.taken k, if_neg]
      rintro rfl
      rw [kindOf_dir] at hk
      exact other_ne d hk.symm
  · have := h.proper _ he
    rwa [Proper, ← hconnected, ← hlistening] at this
  · rw [hlistening, hconnected]
    exact h.listens
  · rw [hx.error.1] at herror
    cases herror
  · rcases eq_or_eq_other d e with rfl | rfl
    · exact hx.timeout
    · rw [hx.timeout_other]
      exact h.deleted (hdeleted ▸ hdel) _

theorem Expired.spent {calls : List Call} (hx : Expired t d (kindOf t.connected d) op t' calls)
    (hrest : ∀ k, k.dir = d → k ≠ kindOf t.connected d → callback t k = none)
    (hother : Side t settled (other d) []) : Spent t' := by
  cases hother with
  | idle _ hcb hτ =>
    refine ⟨hx.error.1, hx.sock, hx.error.2, fun k ↦ ?_, fun e ↦ ?_⟩
    · rw [hx.taken k]
      split
      · rfl
      · next hne =>
        rcases eq_or_eq_other d k.dir with hk | hk
        · exact hrest k hk hne
        · exact hcb k hk
    · rcases eq_or_eq_other d e with rfl | rfl
      · exact hx.timeout
      · rw [hx.timeout_other]
        exact hτ

end Nanoev.Iocp
