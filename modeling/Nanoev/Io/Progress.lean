import Nanoev.Io.TcpLoop

/-!
# What can still complete a TCP operation

An operation that is pending on a TCP event is completed by a completion that is on the way, by the
readiness of the socket, which the poller reports if the socket is registered for the direction, or
by the timeout of the direction. The two directions share the socket. A timeout that expires closes
it, and what is pending in the other direction is left with its own timeout and a completion that is
already in the queue, if there are any.

In a run in which every timeout that expires finds the other direction in such a state, each pending
operation has a source of completion, in every state.
-/

namespace Nanoev

open Transition

def Dir.other : Dir → Dir
  | .read => .write
  | .write => .read

/-- The socket is open and registered with the poller for a direction. -/
def registeredFor (k : Option Socket) (d : Dir) : Bool := k.any fun k ↦ k.interest.has d

/-! ## Registrations that the kernel does not refuse -/

/-- The interest that the event has cached is the one that the kernel holds. -/
def Mirrored (m : Mask) (k : Option Socket) : Prop := ∀ x ∈ k, x.interest = m

section Registration

variable {m m' events : Mask} {k k' : Option Socket} {sys : Sys} {err : Option Errno} {d : Dir}

theorem epollPollerModify_some {x : Socket} (hx : x.interest = m) (hctl : sys.epollCtl = none) :
    epollPollerModify m (some x) events sys =
      ⟨none, events, some { x with interest := events }⟩ := by
  unfold epollPollerModify
  dsimp only
  rw [hx, hctl]
  by_cases heq : m = events
  · rw [if_pos heq, ← heq, ← hx]
  · rw [if_neg heq, if_neg (fun h ↦ h.2 h.1), if_neg (fun h ↦ h.1 h.2)]

/-- A registration keeps the two sides the same, whether it succeeds or not. -/
theorem Mirrored.of_modify (h : Mirrored m k)
    (hreg : epollPollerModify m k events sys = ⟨err, m', k'⟩) : Mirrored m' k' := by
  obtain ⟨rfl, rfl⟩ | ⟨-, rfl, x, -, rfl⟩ := epollPollerModify_cases hreg
  · exact h
  · intro y hy
    obtain rfl := Option.mem_some_iff.mp hy
    rfl

theorem Mirrored.modify (h : Mirrored m k) (hctl : sys.epollCtl = none)
    (hreg : epollPollerModify m k events sys = ⟨err, m', k'⟩) :
    Mirrored m' k' ∧ Mirrored events k' := by
  cases k with
  | none =>
    rw [(epollPollerModify_eq_none_iff hreg).mpr rfl]
    exact ⟨nofun, nofun⟩
  | some x =>
    rw [epollPollerModify_some (h x rfl) hctl] at hreg
    cases hreg
    constructor <;>
    · intro y hy
      obtain rfl := Option.mem_some_iff.mp hy
      rfl

theorem Mirrored.registeredFor (h : Mirrored m k) : registeredFor k d = (k.isSome && m.has d) := by
  cases k with
  | none => rfl
  | some x => rw [Nanoev.registeredFor, Option.any_some, h x rfl]; rfl

theorem Mirrored.registers (h : Mirrored m k) (hctl : sys.epollCtl = none)
    (hreg : epollPollerModify m k events sys = ⟨err, m', k'⟩) (hk : k ≠ none)
    (hev : events.has d = true) : Nanoev.registeredFor k' d = true := by
  rw [(h.modify hctl hreg).2.registeredFor, hev, Bool.and_true, Option.isSome_iff_ne_none]
  exact fun hk' ↦ hk ((epollPollerModify_eq_none_iff hreg).mp hk')

theorem Mirrored.keeps (h : Mirrored m k) (hctl : sys.epollCtl = none)
    (hreg : epollPollerModify m k events sys = ⟨err, m', k'⟩)
    (hev : m.has d = true → events.has d = true) (hd : Nanoev.registeredFor k d = true) :
    Nanoev.registeredFor k' d = true := by
  rw [h.registeredFor, Bool.and_eq_true, Option.isSome_iff_ne_none] at hd
  exact h.registers hctl hreg hd.1 (hev hd.2)

theorem mirrored_new (fd : ℕ) : Mirrored .empty (some ⟨fd, .empty⟩) := by
  intro x hx
  obtain rfl := Option.mem_some_iff.mp hx
  rfl

end Registration

/-! ## Sources of completion -/

/-- Something can still complete the operation of a direction. -/
def TcpView.Source (v : TcpView) (d : Dir) : Prop :=
  0 < v.queued d + v.batched d ∨ registeredFor v.t.sock d = true ∨ (v.t.timeout d).active = true

/-- Every pending operation of a live event has a source of completion; the kernel's interest is the
cached one, and a socket that is connected or listens is registered for reading. -/
structure TcpView.Covered (v : TcpView) : Prop where
  mirror : Mirrored v.t.reactorEvents v.t.sock
  ready : v.t.connected = true ∨ v.t.listening = true → v.t.sock ≠ none →
    v.t.reactorEvents.read = true
  source : v.t.deleted = false → ∀ d, (v.t.side d).flag = true → v.Source d

/-- The condition on what is done to an event: the kernel does not refuse a registration, the client
does not open a socket on an event in the error state, and a timeout that expires finds the other
direction idle, or with its completion in the queue, or with its own timeout armed. -/
def TcpAct.coverable (v : TcpView) : TcpAct → Prop
  | .call c sys => (Tcp.opens c = true → v.t.error = false) ∧ sys.epollCtl = none
  | .timeout d _ =>
    (v.t.side d.other).flag = true →
      0 < v.queued d.other ∨ (v.t.timeout d.other).active = true
  | .dispatch _ sys => sys.epollCtl = none
  | _ => True

theorem TcpAct.coverable.noReconnect {v : TcpView} {a : TcpAct} (h : a.coverable v) :
    a.noReconnect v := by
  cases a with
  | call c sys => exact h.1
  | _ => trivial

namespace TcpView

variable {v v' : TcpView} {d : Dir} {t' : Tcp} {q b : Dir → ℕ}

/-- A source of completion is still there when nothing is taken away from the direction. -/
theorem Source.mono (h : v.Source d)
    (hcount : v.queued d + v.batched d ≤ v'.queued d + v'.batched d)
    (hreg : registeredFor v.t.sock d = true → registeredFor v'.t.sock d = true)
    (hτ : v'.t.timeout d = v.t.timeout d) : v'.Source d := by
  rcases h with h | h | h
  · exact .inl (h.trans_le hcount)
  · exact .inr (.inl (hreg h))
  · exact .inr (.inr (by rw [hτ]; exact h))

namespace Covered

open Tcp

theorem mk' {t : Tcp} (hm : Mirrored t.reactorEvents t.sock)
    (hready : t.connected = true ∨ t.listening = true → t.sock ≠ none → t.reactorEvents.read = true)
    (hread : t.deleted = false → t.reading = true → Source ⟨t, q, b⟩ .read)
    (hwrite : t.deleted = false → t.writing = true → Source ⟨t, q, b⟩ .write) :
    Covered ⟨t, q, b⟩ where
  mirror := hm
  ready := hready
  source := fun hlive d hflag ↦ by
    cases d with
    | read => exact hread hlive hflag
    | write => exact hwrite hlive hflag

theorem registered_read (h : v.Covered) (hrole : v.t.connected = true ∨ v.t.listening = true)
    (hsock : v.t.sock ≠ none) : registeredFor v.t.sock .read = true := by
  rw [h.mirror.registeredFor, Bool.and_eq_true, Option.isSome_iff_ne_none]
  exact ⟨hsock, h.ready hrole hsock⟩

theorem opened {c : TcpCall} {sys : Sys} {fresh : Fresh} {op : ℕ} {effects : List IoEffect}
    {ret : RetCode} (h : v.Covered) (hok : v.Ok) (hlive : v.t.deleted = false)
    (hopen : opens c = true) (herror : v.t.error = false) (hctl : sys.epollCtl = none)
    (hsock : v.t.sock = none) (hc : CallOutcome v.t op sys fresh c t' effects ret) :
    Covered ⟨t', fun d ↦ v.queued d + submits effects d, v.batched⟩ := by
  obtain ⟨hr, hw, hcon, hlis, hev⟩ := hok.pristine herror hlive hsock
  have hnew : Mirrored v.t.reactorEvents (some ⟨fresh.fd, .empty⟩) := hev ▸ mirrored_new fresh.fd
  have hrole : ¬(v.t.connected = true ∨ v.t.listening = true) := by simp [hcon, hlis]
  have hread : ∀ {P : Prop}, v.t.reading = true → P := fun h ↦ absurd (h.symm.trans hr) (by decide)
  have hwrite : ∀ {P : Prop}, v.t.writing = true → P := fun h ↦ absurd (h.symm.trans hw) (by decide)
  cases hc with
  | refused => exact h
  | systemFailed => exact ⟨h.mirror, h.ready, h.source⟩
  | noSocket => exact .mk' h.mirror h.ready (fun _ ↦ hread) fun _ ↦ hwrite
  | openFailed hc hsock hreg =>
    exact .mk' (hnew.modify hctl hreg).1 (fun h ↦ absurd h hrole) (fun _ ↦ hread) fun _ ↦ hwrite
  | connectQueued =>
    exact .mk' hnew (fun h ↦ absurd h hrole) (fun _ ↦ hread) fun _ _ ↦ .inl (by
      simp [submits, IoEffect.submitted?])
  | connectDeferred hsock hreg =>
    exact .mk' (hnew.modify hctl hreg).1 (fun h ↦ absurd h hrole) (fun _ ↦ hread) fun _ _ ↦
      .inr (.inl (hnew.registers hctl hreg (Option.some_ne_none _) rfl))
  | listenDone hsock hreg =>
    refine .mk' (hnew.modify hctl hreg).1 (fun _ hk ↦ ?_) (fun _ ↦ hread) fun _ ↦ hwrite
    obtain ⟨x, hx⟩ := Option.ne_none_iff_exists'.mp hk
    obtain ⟨h₁, h₂⟩ := hnew.modify hctl hreg
    rw [← h₁ x hx, h₂ x hx]
    rfl
  | _ => cases hopen

theorem rewired {sys : Sys} {events m : Mask} {k : Option Socket} {err : Option Errno}
    (h : v.Covered) (hctl : sys.epollCtl = none)
    (hreg : epollPollerModify v.t.reactorEvents v.t.sock events sys = ⟨err, m, k⟩)
    (hev : v.t.reactorEvents.read = true → events.read = true) :
    Mirrored m k ∧
      (v.t.connected = true ∨ v.t.listening = true → k ≠ none → m.read = true) ∧
      (registeredFor v.t.sock .read = true → registeredFor k .read = true) := by
  obtain ⟨hm, he⟩ := h.mirror.modify hctl hreg
  refine ⟨hm, fun hrole hk ↦ ?_, h.mirror.keeps hctl hreg hev⟩
  have hsock : v.t.sock ≠ none := fun hs ↦ hk ((epollPollerModify_eq_none_iff hreg).mpr hs)
  obtain ⟨x, hx⟩ := Option.ne_none_iff_exists'.mp hk
  rw [← hm x hx, he x hx]
  exact hev (h.ready hrole hsock)

theorem call {c : TcpCall} {sys : Sys} {fresh : Fresh} {op : ℕ} {effects : List IoEffect}
    {ret : RetCode} (h : v.Covered) (hok : v.Ok) (hlive : v.t.deleted = false)
    (hopen : opens c = true → v.t.error = false) (hctl : sys.epollCtl = none)
    (hc : CallOutcome v.t op sys fresh c t' effects ret) :
    Covered ⟨t', fun d ↦ v.queued d + submits effects d, v.batched⟩ := by
  have hread := h.source hlive .read
  have hwrite := h.source hlive .write
  have hmore : ∀ d, v.queued d + v.batched d ≤ v.queued d + submits effects d + v.batched d :=
    fun d ↦ by omega
  have hout := hc
  cases hc with
  | refused => exact h
  | systemFailed => exact ⟨h.mirror, h.ready, h.source⟩
  | noSocket hc hsock | openFailed hc hsock =>
    exact h.opened hok hlive hc (hopen hc) hctl hsock hout
  | connectQueued hsock | connectDeferred hsock | listenDone hsock =>
    exact h.opened hok hlive rfl (hopen rfl) hctl hsock hout
  | acceptFailed hlistening herror hreading | readFailed hconnected herror hreading =>
    refine .mk' h.mirror h.ready (fun _ hr ↦ absurd (hr.symm.trans hreading) (by decide)) ?_
    exact fun _ hw ↦ (hwrite hw).mono (hmore _) id rfl
  | acceptQueued hlistening hsock =>
    refine .mk' h.mirror h.ready (fun _ _ ↦ .inl ?_) fun _ hw ↦ (hwrite hw).mono (hmore _) id rfl
    simp [submits, IoEffect.submitted?]
  | acceptDeferred hlistening hsock =>
    exact .mk' h.mirror h.ready (fun _ _ ↦ .inr (.inl (h.registered_read (.inr hlistening) hsock)))
      fun _ hw ↦ (hwrite hw).mono (hmore _) id rfl
  | @writeFailed b timeout events err m k cx τ e a hconnected herror hwriting hreg hevents =>
    have hkeeps : v.t.reactorEvents.read = true → events.read = true := by
      rcases hevents with rfl | rfl <;> exact id
    obtain ⟨hm, hready, hreg'⟩ := h.rewired hctl hreg hkeeps
    exact .mk' hm hready (fun _ hr ↦ (hread hr).mono (hmore _) hreg' rfl) fun _ hw ↦
      absurd (hw.symm.trans hwriting) (by decide)
  | writeQueued hconnected hsock =>
    refine .mk' h.mirror h.ready (fun _ hr ↦ (hread hr).mono (hmore _) id rfl) fun _ _ ↦ .inl ?_
    simp [submits, IoEffect.submitted?]
  | writeDeferred hconnected hsock herror hwriting hreg =>
    obtain ⟨hm, hready, hreg'⟩ := h.rewired hctl hreg id
    exact .mk' hm hready (fun _ hr ↦ (hread hr).mono (hmore _) hreg' rfl) fun _ _ ↦
      .inr (.inl (h.mirror.registers hctl hreg hsock rfl))
  | readDeferred hconnected hsock =>
    exact .mk' h.mirror h.ready (fun _ _ ↦ .inr (.inl (h.registered_read (.inl hconnected) hsock)))
      fun _ hw ↦ (hwrite hw).mono (hmore _) id rfl

theorem timeout {sys : Sys} {effects : List IoEffect} (hok : v.Ok)
    (hactive : (v.t.timeout d).active = true)
    (hother : (v.t.side d.other).flag = true →
      0 < v.queued d.other ∨ (v.t.timeout d.other).active = true)
    (ho : TimeoutOutcome v.t d sys t' effects) : Covered ⟨t', v.queued, v.batched⟩ := by
  have hsource : ∀ {t : Tcp}, t.timeout d.other = v.t.timeout d.other →
      (v.t.side d.other).flag = true → Source ⟨t, v.queued, v.batched⟩ d.other := by
    intro t hτ hflag
    rcases hother hflag with hq | hactive
    · exact .inl (Nat.add_pos_left hq _)
    · exact .inr (.inr (by rw [hτ]; exact hactive))
  cases ho with
  | readIgnored hd hτ her hlost => subst hd; exact (hok.read.not_ignored hactive hlost).elim
  | writeIgnored hd hτ her hlost => subst hd; exact (hok.write.not_ignored hactive hlost).elim
  | acceptExpired hd | readExpired hd =>
    subst hd
    exact .mk' nofun (fun _ hk ↦ absurd rfl hk) (fun _ hr ↦ by cases hr) fun _ hw ↦ hsource rfl hw
  | connectExpired hd | writeExpired hd =>
    subst hd
    exact .mk' nofun (fun _ hk ↦ absurd rfl hk) (fun _ hr ↦ hsource rfl hr) fun _ hw ↦ by cases hw

theorem offer {sys : Sys} {fresh : Fresh} {completed : Bool} {effects : List IoEffect}
    (h : v.Covered) (ho : OfferOutcome v.t d sys fresh t' completed effects) :
    Covered
      ⟨t', v.queued, Function.update v.batched d (v.batched d + if completed then 1 else 0)⟩ := by
  have hmore : ∀ e, v.queued e + v.batched e ≤ v.queued e +
      Function.update v.batched d (v.batched d + if completed then 1 else 0) e := by
    intro e
    rw [Function.update_apply]
    split
    · next he => rw [he]; omega
    · exact le_rfl
  have hsource : ∀ {t : Tcp}, t.sock = v.t.sock → t.timeout = v.t.timeout →
      (∀ e, (t.side e).flag = (v.t.side e).flag) → t.deleted = v.t.deleted →
      t.deleted = false → ∀ e, (t.side e).flag = true →
        Source ⟨t, v.queued, Function.update v.batched d
          (v.batched d + if completed then 1 else 0)⟩ e := by
    intro t hsock hτ hflags hdel hlive e hflag
    refine (h.source (hdel ▸ hlive) e (hflags e ▸ hflag)).mono (hmore e) (fun hr ↦ ?_) ?_
    · exact (congrArg (registeredFor · e) hsock).trans hr
    · exact congrFun hτ e
  cases ho <;>
    exact ⟨h.mirror, h.ready, hsource rfl rfl (fun e ↦ by cases e <;> rfl) rfl⟩

theorem dispatch {sys : Sys} {fresh : Fresh} {client : Option Tcp} {effects : List IoEffect}
    (h : v.Covered) (hok : v.Ok) (hbatch : 0 < v.batched d) (hctl : sys.epollCtl = none)
    (ho : DispatchOutcome v.t d sys fresh t' client effects) :
    Covered ⟨t', v.queued, Function.update v.batched d (v.batched d - 1)⟩ := by
  obtain ⟨hflag, -⟩ := hok.completed hbatch
  have hkeep : ∀ e, e ≠ d → v.queued e + v.batched e ≤
      v.queued e + Function.update v.batched d (v.batched d - 1) e := by
    intro e he
    rw [Function.update_of_ne he]
  -- the interest in reading is kept, and that in writing too when a read is completed
  have hnoted : ∀ {m k er}, Noted v.t d sys m k er →
      (Mirrored m k ∧ (v.t.connected = true ∨ v.t.listening = true → k ≠ none → m.read = true)) ∧
        ∀ e, e ≠ d → registeredFor v.t.sock e = true → registeredFor k e = true := by
    rintro m k er ⟨⟨events, err, hevents, hreg⟩, -⟩
    have hread : v.t.reactorEvents.read = true → events.read = true := by
      rcases hevents with rfl | ⟨-, rfl⟩ <;> exact id
    obtain ⟨hm, hready, hreg'⟩ := h.rewired hctl hreg hread
    refine ⟨⟨hm, hready⟩, fun e he ↦ ?_⟩
    cases e with
    | read => exact hreg'
    | write =>
      have hd : d ≠ .write := fun hd ↦ he hd.symm
      obtain rfl := hevents.resolve_right fun h ↦ hd h.1
      exact h.mirror.keeps hctl hreg id
  cases ho with
  | readDone hn hd =>
    subst hd
    obtain ⟨⟨hm, hready⟩, hreg⟩ := hnoted hn
    exact .mk' hm hready (fun _ hr ↦ by cases hr) fun hlive hw ↦
      (h.source hlive .write hw).mono (hkeep _ (by decide)) (hreg _ (by decide)) rfl
  | writeDone hn hd =>
    subst hd
    obtain ⟨⟨hm, hready⟩, hreg⟩ := hnoted hn
    exact .mk' hm hready (fun hlive hr ↦
      (h.source hlive .read hr).mono (hkeep _ (by decide)) (hreg _ (by decide)) rfl)
      fun _ hw ↦ by cases hw
  | acceptDone hn hconnected hlistening | acceptDropped hn hconnected hlistening =>
    obtain rfl := hok.eq_read_of_listening hflag hconnected hlistening
    obtain ⟨⟨hm, hready⟩, hreg⟩ := hnoted hn
    exact .mk' hm hready (fun _ hr ↦ by cases hr) fun hlive hw ↦
      (h.source hlive .write hw).mono (hkeep _ (by decide)) (hreg _ (by decide)) rfl
  | connectFailed hn hconnected hlistening =>
    obtain rfl := hok.eq_write_of_not_listening hflag hconnected hlistening
    obtain ⟨⟨hm, hready⟩, hreg⟩ := hnoted hn
    exact .mk' hm hready (fun hlive hr ↦
      (h.source hlive .read hr).mono (hkeep _ (by decide)) (hreg _ (by decide)) rfl)
      fun _ hw ↦ by cases hw
  | connectDone hn hconnected hlistening hwriting hop hdeleted hstatus hreg =>
    obtain rfl := hok.eq_write_of_not_listening hflag hconnected hlistening
    obtain ⟨⟨hm, -⟩, -⟩ := hnoted hn
    obtain ⟨hm', he'⟩ := hm.modify hctl hreg
    refine .mk' hm' (fun _ hk ↦ ?_) (fun _ hr ↦ ?_) fun _ hw ↦ by cases hw
    · obtain ⟨x, hx⟩ := Option.ne_none_iff_exists'.mp hk
      rw [← hm' x hx, he' x hx]
      rfl
    · exact absurd (hr.symm.trans (hok.not_reading hconnected hlistening)) (by decide)
  | readStale hn hd hconnected hlost =>
    subst hd
    exact (hok.read.not_stale hflag hconnected hlost).elim
  | writeStale hn hd hconnected hlost =>
    subst hd
    exact (hok.write.not_stale hflag hconnected hlost).elim
  | acceptStale hn hconnected hlistening hlost =>
    obtain rfl := hok.eq_read_of_listening hflag hconnected hlistening
    exact (hok.read.not_staleConn hflag hconnected hlost).elim
  | connectStale hn hconnected hlistening hlost =>
    obtain rfl := hok.eq_write_of_not_listening hflag hconnected hlistening
    exact (hok.write.not_staleConn hflag hconnected hlost).elim

end Covered

end TcpView

theorem TcpStep.covered {v v' : TcpView} {a : TcpAct} (hstep : TcpStep v a v') (hok : v.Ok)
    (h : v.Covered) (ha : a.coverable v) : v'.Covered := by
  cases hstep with
  | call hlive hkernel hc => exact h.call hok hlive ha.1 ha.2 hc
  | timeout hactive hbatch ho => exact .timeout hok hactive ha ho
  | offer hnone ho => exact h.offer ho
  | dispatch hbatch ho => exact h.dispatch hok hbatch ha ho
  | free hlive hpending => exact ⟨nofun, fun _ hk ↦ absurd rfl hk, fun hdel ↦ by cases hdel⟩
  | link => exact ⟨h.mirror, h.ready, h.source⟩
  | poll hbatch hmoved =>
    refine ⟨h.mirror, h.ready, fun hlive d hflag ↦ (h.source hlive d hflag).mono ?_ id rfl⟩
    show v.queued d + v.batched d ≤ _
    rw [hbatch d, hmoved d]
    exact le_rfl

theorem Tcp.flag_side (t : Tcp) (d : Dir) : (t.side d).flag = t.flag d := by
  cases d <;> rfl

namespace IoLoop

theorem NewView.covered {v : TcpView} (h : NewView v) : v.Covered := by
  cases h with
  | tcpNew =>
    exact ⟨nofun, fun _ hk ↦ absurd rfl hk, fun _ d hflag ↦ by cases d <;> cases hflag⟩
  | client u fd =>
    refine ⟨fun x hx ↦ ?_, fun _ _ ↦ rfl, fun _ d hflag ↦ by cases d <;> cases hflag⟩
    obtain rfl := Option.mem_some_iff.mp hx
    rfl

/-! ## No lost completion -/

/-- `epoll_ctl` does not fail for want of resources, in the functions of TCP events. -/
def epollSucceeds : Action → Bool
  | .tcp _ _ sys | .timeoutFires _ _ sys | .dispatch sys => sys.epollCtl.isNone
  | _ => true

/-- A timeout that expires finds the other direction idle, or with its completion in the queue, or
with its own timeout armed. -/
def sparesOther (s : IoLoop) : Action → Bool
  | .timeoutFires i d _ =>
    match s.mem i with
    | some (.tcp t) =>
      !t.flag d.other || decide ((i, d.other) ∈ s.queue) || (t.timeout d.other).active
    | _ => true
  | _ => true

def keepsSources (s : IoLoop) (a : Action) : Bool :=
  s.noReconnect a && epollSucceeds a && s.sparesOther a

/-- Something can still complete an operation of event `i` in direction `d`: a completion in the
queue or in the batch, the readiness of the socket, or the timeout. -/
def Source (s : IoLoop) (i : ℕ) (t : Tcp) (d : Dir) : Prop :=
  (i, d) ∈ s.queue ++ s.batch ∨ registeredFor t.sock d = true ∨ (t.timeout d).active = true

instance (s : IoLoop) (i : ℕ) (t : Tcp) (d : Dir) : Decidable (s.Source i t d) :=
  inferInstanceAs (Decidable (_ ∨ _ ∨ _))

variable {s s' : IoLoop} {a : Action} {i : ℕ} {t : Tcp}

theorem keepsSources_does {act : TcpAct} (h : s.keepsSources a = true)
    (ht : s.mem i = some (.tcp t)) (hdoes : does a i act) : act.coverable (s.tcpView i t) := by
  rw [keepsSources, Bool.and_eq_true, Bool.and_eq_true] at h
  obtain ⟨⟨hno, hctl⟩, hother⟩ := h
  cases act with
  | call c sys =>
    refine ⟨noReconnect_does hno ht hdoes, ?_⟩
    rw [does] at hdoes
    rw [hdoes, epollSucceeds, Option.isNone_iff_eq_none] at hctl
    exact hctl
  | timeout d sys =>
    intro hflag
    rw [does] at hdoes
    rw [hdoes, sparesOther, ht] at hother
    dsimp only at hother
    rw [Tcp.flag_side] at hflag
    simp only [tcpView] at hflag ⊢
    rw [hflag, Bool.not_true, Bool.false_or, Bool.or_eq_true, decide_eq_true_eq] at hother
    exact hother.imp_left List.count_pos_iff.mpr
  | dispatch d sys =>
    rw [does] at hdoes
    rw [hdoes, epollSucceeds, Option.isNone_iff_eq_none] at hctl
    exact hctl
  | _ => trivial

theorem tcpView_source {d : Dir} (h : (s.tcpView i t).Source d) : s.Source i t d := by
  refine h.imp_left fun hpos ↦ ?_
  rw [← List.count_pos_iff, List.count_append]
  exact hpos

/-- **No completion is lost** in a run in which the client does not call connect or listen on an
event in the error state and no timeout expires while the other direction is pending without a
completion in the queue and without a timeout of its own: every operation that is pending on a TCP
event that has not been freed can still be completed. -/
theorem source_of_keepsSources (h : Reachable step (fun s a ↦ s.keepsSources a = true) init s) :
    ∀ i t d, s.mem i = some (.tcp t) → s.freed i = false → t.flag d = true → s.Source i t d := by
  obtain ⟨hw, hcovered⟩ : s.Wf ∧ s.TcpInv fun v ↦ v.Ok ∧ v.Covered := by
    refine h.invariant (I := fun s ↦ s.Wf ∧ s.TcpInv fun v ↦ v.Ok ∧ v.Covered)
      ⟨init_wf, init_tcpInv _⟩ ?_
    rintro s a s' ⟨hw, hv⟩ ha hstep
    refine ⟨(step_eq_some hstep).wf hw, hv.step hw hstep (fun v hv ↦ ⟨hv.ok, hv.covered⟩) ?_
      fun i t act ht hdoes ↦ keepsSources_does ha ht hdoes⟩
    rintro v act v' hstep ⟨hok, hcov⟩ hact
    exact ⟨hstep.ok hok hact.noReconnect, hstep.covered hok hcov hact⟩
  intro i t d ht hf hflag
  have hdel : t.deleted = false := (hw.memory.deleted ht).trans hf
  exact tcpView_source ((hcovered i t ht).2.source hdel d (by rw [Tcp.flag_side]; exact hflag))

/-- A connection is made; the client is in its callback. -/
def connecting : List Action :=
  [.new .tcp, .tcp 0 (.connect true none true) { Sys.ok 0 with connect := .inProgress }, .runEnter,
    .processEndgame, .epollWait, .report 0 .writable, .offer { Sys.ok 0 with io := .wouldBlock },
    .pollReturn, .dispatch (.ok 0)]

/-- A write that would block is started, with or without a timeout, and a read with a timeout, which
expires. -/
def readExpires (timeout : Option Timeval) : List Action :=
  connecting ++
    [.tcp 0 (.write ⟨4, 8⟩ timeout true) { Sys.ok 0 with io := .wouldBlock },
      .tcp 0 (.read ⟨9, 16⟩ (some ⟨1, 0⟩) true) (.ok 0), .callbackReturn, .nextRound,
      .timeoutFires 0 .read (.ok 0)]

theorem source_of_keepsSources_readExpires :
    ∃ s t, exec step (fun s a ↦ s.keepsSources a = true) init (readExpires (some ⟨2, 0⟩)) = some s ∧
      s.mem 0 = some (.tcp t) ∧ t.sock = none ∧ s.Source 0 t .write := by
  have hrun : ((exec step (fun s a ↦ s.keepsSources a = true) init
      (readExpires (some ⟨2, 0⟩))).bind fun s ↦ (s.tcpAt 0).map fun t ↦
        (s.freed 0, t.flag .write, t.sock)) = some (false, true, none) := by decide +kernel
  obtain ⟨s, t, hs, ht, hfields⟩ := exists_tcpAt_of_exec hrun
  simp only [Prod.mk.injEq] at hfields
  obtain ⟨hf, hflag, hsock⟩ := hfields
  exact ⟨s, t, hs, ht, hsock, source_of_keepsSources (Reachable.of_exec hs) 0 t .write ht hf hflag⟩

/-- An accept times out, and the client calls connect on the listener. -/
def connectListener : List Action :=
  [.new .tcp, .tcp 0 (.listen true) (.ok 0),
    .tcp 0 (.accept (some ⟨1, 0⟩) true false) { Sys.ok 0 with accept := .wouldBlock }, .runEnter,
    .timeoutFires 0 .read (.ok 0), .tcp 0 (.connect true none true) (.ok 0), .callbackReturn,
    .processEndgame, .takeQueued, .dispatch (.ok 0)]

/-- A read that expires closes the socket and leaves a write without any source of completion; so
does, by another way, a connect on a listener whose socket was closed by a timeout. -/
theorem readExpires_not_source :
    (∃ s t, Reachable step (fun s a ↦ (s.noReconnect a && epollSucceeds a) = true) init s ∧
      s.mem 0 = some (.tcp t) ∧ s.freed 0 = false ∧ t.writing = true ∧ t.onWrite = some 1 ∧
      ¬s.Source 0 t .write) ∧
    ∃ s t, Reachable step (fun s a ↦ (epollSucceeds a && s.sparesOther a) = true) init s ∧
      s.mem 0 = some (.tcp t) ∧ s.freed 0 = false ∧ t.writing = true ∧ t.onConnect = some 2 ∧
      ¬s.Source 0 t .write := by
  have hwrite : ((exec step (fun s a ↦ (s.noReconnect a && epollSucceeds a) = true) init
      (readExpires none)).bind fun s ↦ (s.tcpAt 0).map fun t ↦
        (s.freed 0, t.writing, t.onWrite, decide (s.Source 0 t .write))) =
      some (false, true, some 1, false) := by decide +kernel
  have hconnect : ((exec step (fun s a ↦ (epollSucceeds a && s.sparesOther a) = true) init
      connectListener).bind fun s ↦ (s.tcpAt 0).map fun t ↦
        (s.freed 0, t.writing, t.onConnect, decide (s.Source 0 t .write))) =
      some (false, true, some 2, false) := by decide +kernel
  obtain ⟨s, t, hs, ht, hfields⟩ := exists_tcpAt_of_exec hwrite
  obtain ⟨s', t', hs', ht', hfields'⟩ := exists_tcpAt_of_exec hconnect
  simp only [Prod.mk.injEq, decide_eq_false_iff_not] at hfields hfields'
  exact ⟨⟨s, t, Reachable.of_exec hs, ht, hfields⟩,
    ⟨s', t', Reachable.of_exec hs', ht', hfields'⟩⟩

end IoLoop

end Nanoev
