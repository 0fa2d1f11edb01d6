import SafetyCopro.Driver.Calls
import SafetyCopro.Lib.Machine

/-!
The watchdog and the link state. Of the device they see little: whether the
timer is armed and when it is due, the link state, and whether the recovery work
is queued. `Watched` is the machine they form, and every call of the driver is
one of its moves.
-/

namespace SafetyCopro

/-- What the watchdog and the link state depend on. -/
structure Watch where
  armed : Bool
  expires : U64
  timeoutMs : U32
  state : SafetyLinkState
  queued : Bool
deriving DecidableEq, Repr

/-- Queued work is run when the work queue comes to it. -/
def Watch.Rests (w : Watch) : DevOp → Prop
  | .recoveryWork => w.queued = false
  | _ => True

/-- The events the link state is about. -/
inductive WatchEvent
  -- a valid heartbeat was accepted
  | beat
  -- the watchdog fired
  | expiry
  | force
deriving DecidableEq, Repr

namespace SafetyCoproDev

def watch (dev : SafetyCoproDev) : Watch :=
  ⟨dev.hbTimerArmed, dev.hbTimerExpires, dev.hbTimeoutMs, dev.state, dev.recoveryWorkQueued⟩

def watchEvents (dev : SafetyCoproDev) (ctx : Context) : DevOp → List WatchEvent
  | .ioctl (.pushRxFrame (some frame)) =>
      if ValidHeartbeat frame ∧
          (dev.call ctx (.ioctl (.pushRxFrame (some frame)))).result.isOk then [.beat]
      else []
  | .ioctl .forceRecovery => [.force]
  | .hbTimer => if dev.hbTimerArmed then [.expiry] else []
  | _ => []

def watchStep (dev : SafetyCoproDev) (input : DevOp × Context) :
    SafetyCoproDev × List WatchEvent :=
  ((dev.step input).1, dev.watchEvents input.2 input.1)

/-- The moves of the watchdog. -/
inductive Watched (w : Watch) (ctx : Context) : DevOp → List WatchEvent → Watch → Prop
  | beat {frame : List U8} (h : ValidHeartbeat frame) :
      Watched w ctx (.ioctl (.pushRxFrame (some frame))) [.beat]
        { w with
          armed := true
          expires := ctx.armNs + w.timeoutMs.setWidth 64 * 1000000
          state := .hbOk }
  | expiry (harmed : w.armed = true) :
      Watched w ctx .hbTimer [.expiry]
        { w with armed := false, state := .hbTimeout, queued := true }
  | force : Watched w ctx (.ioctl .forceRecovery) [.force] { w with queued := true }
  | timeoutSet {ms : U32} (hms : ms ≠ 0) :
      Watched w ctx (.ioctl (.setHbTimeoutMs (some ms))) []
        { w with
          armed := true
          expires := ctx.armNs + ms.setWidth 64 * 1000000
          timeoutMs := ms }
  | recovered (hqueued : w.queued = true) :
      Watched w ctx .recoveryWork [] { w with state := .recovering, queued := false }
  | idle {op : DevOp} (hop : w.Rests op) : Watched w ctx op [] w

section Keep
variable (dev : SafetyCoproDev) (ctx : Context)

@[simp] theorem recordProtoError_watch (vres : SafetyValidateResult) :
    (dev.recordProtoError vres).watch = dev.watch := by
  cases vres <;> rfl

@[simp] theorem recordDrop_watch (seq : U16) (type : U8) :
    (dev.recordDrop ctx seq type).1.watch = dev.watch := rfl

@[simp] theorem enqueueRx_watch (frame : List U8) (seq : U16) (event : SafetyTimelineEvent) :
    (dev.enqueueRx ctx frame seq event).watch = dev.watch := rfl

@[simp] theorem checked_watch (frame : List U8) : (dev.checked frame).watch = dev.watch := by
  rw [checked]
  split
  · exact recordProtoError_watch dev _
  · rfl

@[simp] theorem offerSynth_watch (s : Synth) : (dev.offerSynth ctx s).1.watch = dev.watch := by
  rw [offerSynth]
  split <;> rfl

@[simp] theorem fifoPopFrame_watch : dev.fifoPopFrame.1.watch = dev.watch := by
  rw [fifoPopFrame]
  split <;> rfl

@[simp] theorem fifoPopTxFrame_watch : dev.fifoPopTxFrame.1.watch = dev.watch := by
  rw [fifoPopTxFrame]
  split <;> rfl

end Keep

variable {dev : SafetyCoproDev} {ctx : Context}

/-- A push of a valid heartbeat succeeds exactly when there is room for it. -/
theorem pushRxFrame_isOk {frame : List U8} (h : Queueable frame) :
    (dev.call ctx (.ioctl (.pushRxFrame (some frame)))).result.isOk = true ↔
      dev.rxFifo.length < dev.fifoDepth := by
  have hresult := (@queueRxFromLinkd_queueable dev ctx frame h).2
  rw [call, safetyIoctl, if_neg (Nat.not_lt.mpr h.1.length_le.2)]
  simp only [Outcome.reply, hresult]
  split <;> simp_all [Except.map, Except.isOk, Except.toBool]

theorem watchEvents_of_queueable {frame : List U8} (h : Queueable frame) :
    dev.watchEvents ctx (.ioctl (.pushRxFrame (some frame))) =
      if ValidHeartbeat frame ∧ dev.rxFifo.length < dev.fifoDepth then [.beat] else [] := by
  rw [watchEvents]
  simp only [pushRxFrame_isOk h]

theorem watchEvents_malformed {frame : List U8} (h : ¬ Queueable frame) :
    dev.watchEvents ctx (.ioctl (.pushRxFrame (some frame))) = [] := by
  rw [watchEvents]
  exact if_neg fun hbeat => h hbeat.1.valid.queueable

theorem idle_watched {op : DevOp} (h : dev.Idle op) :
    Watched dev.watch ctx op (dev.watchEvents ctx op) dev.watch := by
  cases op with
  | hbTimer =>
      have harmed : dev.hbTimerArmed = false := h
      rw [watchEvents, harmed]
      exact .idle trivial
  | recoveryWork => exact .idle h
  | ioctl cmd =>
      cases cmd with
      | pushRxFrame io =>
          cases io with
          | none => exact .idle trivial
          | some frame =>
              rw [watchEvents_malformed (h frame rfl)]
              exact .idle trivial
      | forceRecovery => exact h.elim
      | _ => exact .idle trivial
  | _ => exact .idle trivial

theorem malformed_watched {op : DevOp} (h : Malformed op) :
    Watched dev.watch ctx op (dev.watchEvents ctx op) dev.watch := by
  cases op with
  | write ubuf fault => exact .idle trivial
  | ioctl cmd =>
      cases cmd with
      | pushRxFrame io =>
          cases io with
          | none => exact h.elim
          | some frame =>
              rw [watchEvents_malformed h]
              exact .idle trivial
      | _ => exact h.elim
  | _ => exact h.elim

/-- Every call of the driver is a move of the watchdog. -/
theorem watchStep_watched (dev : SafetyCoproDev) (input : DevOp × Context) :
    Watched dev.watch input.2 input.1 (dev.watchStep input).2 (dev.watchStep input).1.watch := by
  obtain ⟨op, ctx⟩ := input
  have hcalled := @call_called dev ctx op
  have hstep : (dev.watchStep (op, ctx)).1 = (dev.call ctx op).dev := rfl
  rw [hstep, watchStep]
  generalize (dev.call ctx op).dev = dev', (dev.call ctx op).trace = trace at hcalled
  cases hcalled with
  | kept hop htrace => exact idle_watched hop
  | refused hop hvres =>
      rw [recordProtoError_watch]
      exact malformed_watched hop
  | written hwritable hroom => exact .idle trivial
  | writeDropped seq type hfull => exact .idle trivial
  | read count nonblock fault =>
      rw [fifoPopFrame_watch]
      exact .idle trivial
  | popped fault =>
      rw [fifoPopTxFrame_watch]
      exact .idle trivial
  | reset => exact .idle trivial
  | timeoutSet hms => exact .timeoutSet hms
  | forced => exact .force
  | injected faultType =>
      rw [offerSynth_watch]
      exact .idle trivial
  | beat hbeat hroom =>
      rw [watchEvents_of_queueable hbeat.valid.queueable, if_pos ⟨hbeat, hroom⟩]
      exact .beat hbeat
  | pushed hframe hbeat event hroom =>
      rw [watchEvents_of_queueable hframe, if_neg fun h => hbeat h.1, enqueueRx_watch,
        checked_watch]
      exact .idle trivial
  | pushDropped hframe seq type hfull =>
      rw [watchEvents_of_queueable hframe, if_neg fun h => Nat.not_lt.mpr hfull h.2,
        recordDrop_watch, checked_watch]
      exact .idle trivial
  | expired harmed =>
      have hwatch : ((dev.expired ctx).offerSynth ctx (timeoutFault ctx)).1.recoverySchedule.watch =
          { ((dev.expired ctx).offerSynth ctx (timeoutFault ctx)).1.watch with queued := true } :=
        rfl
      rw [hwatch, offerSynth_watch, watchEvents, if_pos harmed]
      exact .expiry harmed
  | recovered hqueued =>
      rw [offerSynth_watch]
      exact .recovered hqueued

end SafetyCoproDev

/-! ### When the watchdog fires -/

/-- A heartbeat was accepted since the watchdog last fired. -/
def FedSince (events : List WatchEvent) : Prop :=
  ∃ pre post, events = pre ++ .beat :: post ∧ .expiry ∉ post

/-- Every firing was preceded by a heartbeat since the one before. -/
def Disciplined (events : List WatchEvent) : Prop :=
  ∀ pre post, events = pre ++ .expiry :: post → FedSince pre

theorem disciplined_nil : Disciplined [] := by
  intro pre post hsplit
  cases pre <;> cases hsplit

theorem fedSince_beat (events : List WatchEvent) : FedSince (events ++ [.beat]) :=
  ⟨events, [], rfl, List.not_mem_nil⟩

theorem FedSince.force {events : List WatchEvent} (h : FedSince events) :
    FedSince (events ++ [.force]) := by
  obtain ⟨pre, post, rfl, hpost⟩ := h
  refine ⟨pre, post ++ [.force], List.append_assoc _ _ _, fun hmem => ?_⟩
  obtain hmem | hmem := List.mem_append.mp hmem
  · exact hpost hmem
  · cases List.mem_singleton.mp hmem

theorem Disciplined.append {events : List WatchEvent} (h : Disciplined events) {e : WatchEvent}
    (he : e = .expiry → FedSince events) : Disciplined (events ++ [e]) := by
  intro pre post hsplit
  obtain rfl | ⟨init, last, rfl⟩ := post.eq_nil_or_concat'
  · obtain ⟨rfl, hlast⟩ := List.append_inj' hsplit rfl
    exact he (List.singleton_inj.mp hlast)
  · rw [← List.cons_append, ← List.append_assoc] at hsplit
    obtain ⟨hinit, -⟩ := List.append_inj' hsplit rfl
    exact h pre init hinit

theorem Disciplined.append_other {events : List WatchEvent} (h : Disciplined events)
    {e : WatchEvent} (he : e ≠ .expiry) : Disciplined (events ++ [e]) :=
  h.append fun hexpiry => absurd hexpiry he

/-- The timeout is set while the watchdog is not armed: before the first
heartbeat, or after it fired. -/
def SetsUnarmed (dev : SafetyCoproDev) : DevOp → Prop
  | .ioctl (.setHbTimeoutMs (some ms)) => ms ≠ 0 ∧ dev.hbTimerArmed = false
  | _ => False

instance (dev : SafetyCoproDev) : (op : DevOp) → Decidable (SetsUnarmed dev op)
  | .ioctl (.setHbTimeoutMs (some _)) => inferInstanceAs (Decidable (_ ∧ _))
  | .write _ _ | .read _ _ _ | .poll | .hbTimer | .recoveryWork => .isFalse id
  | .ioctl (.getStats _) | .ioctl .resetStats | .ioctl (.setHbTimeoutMs none)
  | .ioctl (.getState _) | .ioctl .forceRecovery | .ioctl (.injectFault _)
  | .ioctl (.pushRxFrame _) | .ioctl (.popTxFrame _) | .ioctl .unknown => .isFalse id

theorem watchStep_disciplined {events : List WatchEvent} {dev : SafetyCoproDev}
    {input : DevOp × Context}
    (h : Disciplined events ∧ (dev.hbTimerArmed = true → FedSince events))
    (hset : ¬ SetsUnarmed dev input.1) :
    Disciplined (events ++ (dev.watchStep input).2) ∧
      ((dev.watchStep input).1.hbTimerArmed = true →
        FedSince (events ++ (dev.watchStep input).2)) := by
  obtain ⟨op, ctx⟩ := input
  have harmed : (dev.watchStep (op, ctx)).1.hbTimerArmed =
      (dev.watchStep (op, ctx)).1.watch.armed := rfl
  have hwatched := dev.watchStep_watched (op, ctx)
  rw [harmed]
  generalize (dev.watchStep (op, ctx)).1.watch = w, (dev.watchStep (op, ctx)).2 = es
    at hwatched ⊢
  cases hwatched with
  | beat hbeat => exact ⟨h.1.append_other (by decide), fun _ => fedSince_beat events⟩
  | expiry hwas => exact ⟨h.1.append fun _ => h.2 hwas, fun hnow => absurd hnow Bool.false_ne_true⟩
  | force => exact ⟨h.1.append_other (by decide), fun hnow => (h.2 hnow).force⟩
  | timeoutSet hms =>
      -- the timer was armed already
      have hwas : dev.hbTimerArmed = true := by
        by_contra hnot
        exact hset ⟨hms, Bool.eq_false_iff.mpr hnot⟩
      rw [List.append_nil]
      exact ⟨h.1, fun _ => h.2 hwas⟩
  | recovered hqueued =>
      rw [List.append_nil]
      exact h
  | idle hop =>
      rw [List.append_nil]
      exact h

theorem init_unarmed {hbTimeoutMs : U32} {fifoDepth cpus : Nat} {dev : SafetyCoproDev}
    (h : safetyCoproInit hbTimeoutMs fifoDepth cpus = some dev) : dev.hbTimerArmed = false := by
  dsimp only [safetyCoproInit] at h
  generalize roundupPowOfTwo _ = depth at h
  split at h
  · cases h
  · obtain rfl := Option.some.inj h
    rfl

/-- As long as the timeout is only set while the watchdog is armed, the watchdog
does not fire before a heartbeat was accepted, and not twice without one in
between. -/
theorem watchdog_disciplined {hbTimeoutMs : U32} {fifoDepth cpus : Nat} {dev : SafetyCoproDev}
    (h : safetyCoproInit hbTimeoutMs fifoDepth cpus = some dev) {inputs : List (DevOp × Context)}
    (hset : Machine.Along SafetyCoproDev.watchStep (fun dev input => ¬ SetsUnarmed dev input.1) dev
      inputs) :
    (∀ pre post, Machine.outputs SafetyCoproDev.watchStep dev inputs = pre ++ .expiry :: post →
      WatchEvent.beat ∈ pre) ∧
    ∀ pre between post, Machine.outputs SafetyCoproDev.watchStep dev inputs =
      pre ++ .expiry :: (between ++ .expiry :: post) → WatchEvent.beat ∈ between := by
  obtain ⟨hevents, -⟩ := Machine.outputs_of_along
    (P := fun events (dev : SafetyCoproDev) => Disciplined events ∧
      (dev.hbTimerArmed = true → FedSince events))
    (fun _ _ _ => watchStep_disciplined)
    ⟨disciplined_nil,
      fun harmed => absurd harmed (by rw [init_unarmed h]; exact Bool.false_ne_true)⟩ hset
  refine ⟨fun pre post hsplit => ?_, fun pre between post hsplit => ?_⟩
  · obtain ⟨a, b, rfl, -⟩ := hevents pre post hsplit
    exact List.mem_append_right a List.mem_cons_self
  · rw [← List.cons_append, ← List.append_assoc] at hsplit
    obtain ⟨a, b, hfed, hb⟩ := hevents _ post hsplit
    -- the heartbeat stands behind the first firing, which is not behind it
    obtain ⟨mid, rfl, hmid⟩ | ⟨mid, ha, hmid⟩ := List.append_eq_append_iff.mp hfed
    · obtain _ | ⟨e, mid⟩ := mid
      · cases hmid
      · obtain ⟨rfl, hbetween⟩ := List.cons.inj hmid
        rw [hbetween]
        exact List.mem_append_right mid List.mem_cons_self
    · obtain _ | ⟨e, mid⟩ := mid
      · cases hmid
      · obtain ⟨-, rfl⟩ := List.cons.inj hmid
        exact absurd (List.mem_append_right mid List.mem_cons_self) hb

/-- The timeout is set on a fresh device, and the timer runs out. -/
theorem watchdog_fires_without_heartbeat :
    ∃ dev, safetyCoproInit 0 0 1 = some dev ∧
      Machine.outputs SafetyCoproDev.watchStep dev
        [(.ioctl (.setHbTimeoutMs (some 500)), {}), (.hbTimer, {})] = [.expiry] :=
  ⟨_, rfl, by decide +kernel⟩

/-- A heartbeat, a new timeout and the timer running out. -/
def heartbeatThenExpiry : List (DevOp × Context) :=
  [(.ioctl (.pushRxFrame (some (packFrame safetyFrameHeartbeat 1 0 []))), {}),
    (.ioctl (.setHbTimeoutMs (some 500)), {}), (.hbTimer, {})]

theorem watchdog_disciplined_heartbeat :
    ∃ dev, safetyCoproInit 0 0 1 = some dev ∧
      Machine.outputs SafetyCoproDev.watchStep dev heartbeatThenExpiry = [.beat, .expiry] ∧
      ∀ pre post, Machine.outputs SafetyCoproDev.watchStep dev heartbeatThenExpiry =
        pre ++ .expiry :: post → WatchEvent.beat ∈ pre :=
  ⟨_, rfl, by decide +kernel,
    (@watchdog_disciplined 0 0 1 _ rfl heartbeatThenExpiry (by decide +kernel)).1⟩

end SafetyCopro
