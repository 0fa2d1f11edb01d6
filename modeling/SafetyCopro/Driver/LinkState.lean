import SafetyCopro.Driver.Watchdog

/-!
What the heartbeats of the daemon do. The link state is written by the push of a
heartbeat, by the watchdog and, at some later time, by the recovery work; and a
heartbeat comes to the watchdog only through the RX queue.
-/

namespace SafetyCopro

/-! ### What the link state says -/

/-- The device and the last event that the link state is about. -/
structure LinkWatch where
  dev : SafetyCoproDev
  latest : Option WatchEvent := none

namespace LinkWatch

def step (l : LinkWatch) (input : DevOp × Context) : LinkWatch × List DevEvent :=
  ({ dev := (l.dev.step input).1
     latest := (l.dev.watchEvents input.2 input.1).getLast?.or l.latest },
    (l.dev.step input).2)

/-- After a heartbeat `GET_STATE` says that heartbeats come. -/
def Fresh (l : LinkWatch) : Prop :=
  l.latest = some .beat →
    ∀ ctx, (l.dev.call ctx (.ioctl (.getState false))).result = .ok (.state .hbOk)

/-- The recovery work runs after a heartbeat that came behind what it was queued
for. -/
def WorksLate (l : LinkWatch) (input : DevOp × Context) : Prop :=
  input.1 = .recoveryWork ∧ l.dev.recoveryWorkQueued = true ∧ l.latest = some .beat

instance (l : LinkWatch) (input : DevOp × Context) : Decidable (l.WorksLate input) :=
  inferInstanceAs (Decidable (_ ∧ _ ∧ _))

theorem fresh_iff {l : LinkWatch} : l.Fresh ↔ (l.latest = some .beat → l.dev.state = .hbOk) := by
  refine forall_congr' fun _ => ⟨fun h => ?_, fun h ctx => ?_⟩
  · exact Reply.state.inj (Except.ok.inj (h {}))
  · exact congrArg (fun st => Except.ok (Reply.state st)) h

theorem step_fresh_iff {l : LinkWatch} (h : l.Fresh) (input : DevOp × Context) :
    (l.step input).1.Fresh ↔ ¬ l.WorksLate input := by
  obtain ⟨op, ctx⟩ := input
  have hwatched := l.dev.watchStep_watched (op, ctx)
  rw [fresh_iff] at h ⊢
  have hstate : (l.step (op, ctx)).1.dev.state = (l.dev.watchStep (op, ctx)).1.watch.state := rfl
  have hlatest : (l.step (op, ctx)).1.latest =
      (l.dev.watchStep (op, ctx)).2.getLast?.or l.latest := rfl
  rw [hstate, hlatest]
  generalize (l.dev.watchStep (op, ctx)).1.watch = w, (l.dev.watchStep (op, ctx)).2 = es
    at hwatched ⊢
  have hother : op ≠ .recoveryWork → ¬ l.WorksLate (op, ctx) := fun hop hlate => hop hlate.1
  cases hwatched with
  | beat hbeat => exact iff_of_true (fun _ => rfl) (hother (by simp))
  | expiry harmed => exact iff_of_true (fun hlast => absurd hlast (by simp)) (hother (by simp))
  | force => exact iff_of_true (fun hlast => absurd hlast (by simp)) (hother (by simp))
  | timeoutSet hms => exact iff_of_true h (hother (by simp))
  | recovered hqueued =>
      constructor
      · intro hnext hlate
        cases hnext hlate.2.2
      · intro hlate hlast
        exact absurd ⟨rfl, hqueued, hlast⟩ hlate
  | idle hop =>
      refine iff_of_true h ?_
      rintro ⟨rfl, hqueued, -⟩
      exact absurd hqueued (Bool.eq_false_iff.mp hop)

/-- The link state is `HB_OK` whenever a heartbeat is the last that happened,
exactly as long as no recovery work runs behind the heartbeat. -/
theorem fresh_iff_not_worksLate (dev : SafetyCoproDev) (inputs : List (DevOp × Context)) :
    Machine.Always step Fresh { dev } inputs ↔
      Machine.Along step (fun l input => ¬ l.WorksLate input) { dev } inputs :=
  Machine.always_iff_along (fun _ input hl => step_fresh_iff hl input)
    (fun hlatest => absurd hlatest (by simp)) inputs

/-- A heartbeat, the watchdog, a heartbeat, and only then the recovery work. -/
def lateRecovery : List (DevOp × Context) :=
  [(.ioctl (.pushRxFrame (some (packFrame safetyFrameHeartbeat 1 0 []))), {}),
    (.hbTimer, {}),
    (.ioctl (.pushRxFrame (some (packFrame safetyFrameHeartbeat 2 0 []))), {}),
    (.recoveryWork, {})]

theorem lateRecovery_not_fresh :
    ∃ dev, safetyCoproInit 0 0 1 = some dev ∧
      (Machine.after step { dev } lateRecovery).latest = some .beat ∧
      ((Machine.after step { dev } lateRecovery).dev.call {} (.ioctl (.getState false))).result =
        .ok (.state .recovering) :=
  ⟨_, rfl, by decide +kernel, by decide +kernel⟩

end LinkWatch

/-! ### What feeds the watchdog -/

/-- The two ends of a push of a valid heartbeat. -/
theorem SafetyCoproDev.pushRxFrame_heartbeat {dev : SafetyCoproDev} {frame : List U8}
    (h : ValidHeartbeat frame) (ctx : Context) :
    (dev.rxFifo.length < dev.fifoDepth ∧
      (dev.call ctx (.ioctl (.pushRxFrame (some frame)))).dev =
        (dev.enqueueRx ctx frame (SafetyFrameHeader.ofBytes frame).sequenceId .heartbeat).feed
          ctx) ∨
    (dev.fifoDepth ≤ dev.rxFifo.length ∧
      ∃ seq type, (dev.call ctx (.ioctl (.pushRxFrame (some frame)))).dev =
        (dev.recordDrop ctx seq type).1) := by
  have hcalled := @call_called dev ctx (.ioctl (.pushRxFrame (some frame)))
  generalize (dev.call ctx (.ioctl (.pushRxFrame (some frame)))).dev = dev',
    (dev.call ctx (.ioctl (.pushRxFrame (some frame)))).trace = trace at hcalled
  cases hcalled with
  | kept hop htrace => exact absurd h.valid.queueable (hop frame rfl)
  | refused hop hvres => exact absurd h.valid.queueable hop
  | beat hbeat hroom => exact Or.inl ⟨hroom, rfl⟩
  | pushed hframe hbeat event hroom => exact absurd h hbeat
  | pushDropped hframe seq type hfull =>
      rw [checked_valid h.valid.valid]
      exact Or.inr ⟨hfull, seq, type, rfl⟩

/-- The device and when the last valid heartbeat was pushed, accepted or not,
since the timeout was set. -/
structure BeatWatch where
  dev : SafetyCoproDev
  lastNs : Option U64 := none

namespace BeatWatch

def lastBeat (lastNs : Option U64) (ctx : Context) : DevOp → Option U64
  | .ioctl (.pushRxFrame (some frame)) => if ValidHeartbeat frame then some ctx.armNs else lastNs
  | .ioctl (.setHbTimeoutMs (some ms)) => if ms = 0 then lastNs else none
  | _ => lastNs

def step (b : BeatWatch) (input : DevOp × Context) : BeatWatch × List DevEvent :=
  ({ dev := (b.dev.step input).1, lastNs := lastBeat b.lastNs input.2 input.1 },
    (b.dev.step input).2)

/-- A push of a valid heartbeat counts it, says that heartbeats come and sets the
watchdog to a timeout from now. -/
def Feeds (b : BeatWatch) (input : DevOp × Context) : Prop :=
  ∀ frame, input.1 = .ioctl (.pushRxFrame (some frame)) → ValidHeartbeat frame →
    (b.dev.step input).1.heartbeatCount = b.dev.heartbeatCount + 1 ∧
    (b.dev.step input).1.state = .hbOk ∧
    (b.dev.step input).1.hbTimerArmed = true ∧
    (b.dev.step input).1.hbTimerExpires =
      input.2.armNs + b.dev.hbTimeoutMs.setWidth 64 * 1000000

/-- The watchdog is due a timeout behind the last heartbeat, not earlier. -/
def OnTime (b : BeatWatch) : Prop :=
  ∀ ns, b.lastNs = some ns → b.dev.hbTimerArmed = true →
    b.dev.hbTimerExpires = ns + b.dev.hbTimeoutMs.setWidth 64 * 1000000

/-- The heartbeat a push brings finds room in the RX queue. -/
def FindsRoom (b : BeatWatch) (input : DevOp × Context) : Prop :=
  ∀ frame, input.1 = .ioctl (.pushRxFrame (some frame)) → ValidHeartbeat frame →
    b.dev.rxFifo.length < b.dev.fifoDepth

theorem feeds_iff (b : BeatWatch) (input : DevOp × Context) :
    b.Feeds input ↔ b.FindsRoom input := by
  obtain ⟨op, ctx⟩ := input
  refine forall_congr' fun frame => forall_congr' fun hop => forall_congr' fun hbeat => ?_
  obtain rfl : op = .ioctl (.pushRxFrame (some frame)) := hop
  have hstep : (b.dev.step (.ioctl (.pushRxFrame (some frame)), ctx)).1 =
      (b.dev.call ctx (.ioctl (.pushRxFrame (some frame)))).dev := rfl
  rw [hstep]
  obtain ⟨hroom, hdev⟩ | ⟨hfull, seq, type, hdev⟩ := b.dev.pushRxFrame_heartbeat hbeat ctx
  · rw [hdev]
    exact iff_of_true ⟨rfl, rfl, rfl, rfl⟩ hroom
  · rw [hdev]
    refine iff_of_false (fun hfed => ?_) (Nat.not_lt.mpr hfull)
    have hcount : b.dev.heartbeatCount = b.dev.heartbeatCount + 1 := hfed.1
    exact absurd hcount (by bv_omega)

theorem step_onTime {b : BeatWatch} (h : b.OnTime) {input : DevOp × Context}
    (hroom : b.FindsRoom input) : (b.step input).1.OnTime := by
  obtain ⟨op, ctx⟩ := input
  have hwatched := b.dev.watchStep_watched (op, ctx)
  have honTime : ∀ w : Watch, (b.dev.watchStep (op, ctx)).1.watch = w →
      (∀ ns, lastBeat b.lastNs ctx op = some ns → w.armed = true →
        w.expires = ns + w.timeoutMs.setWidth 64 * 1000000) → (b.step (op, ctx)).1.OnTime := by
    rintro w rfl hw
    exact hw
  refine honTime _ rfl ?_
  generalize (b.dev.watchStep (op, ctx)).1.watch = w, hevents : (b.dev.watchStep (op, ctx)).2 = es
    at hwatched ⊢
  cases hwatched with
  | beat hbeat =>
      intro ns hns _
      rw [lastBeat, if_pos hbeat] at hns
      rw [Option.some.inj hns]
  | expiry harmed => exact fun _ _ hnow => absurd hnow Bool.false_ne_true
  | force => exact h
  | timeoutSet hms =>
      intro ns hns
      rw [lastBeat, if_neg hms] at hns
      cases hns
  | recovered hqueued => exact h
  | idle hop =>
      intro ns hns
      refine h ns ?_
      rw [lastBeat.eq_def] at hns
      split at hns
      · rename_i frame
        -- a valid heartbeat finds room, and the call is no idle one
        have hnot : ¬ ValidHeartbeat frame := by
          intro hbeat
          have hevents' : b.dev.watchEvents ctx (.ioctl (.pushRxFrame (some frame))) = [] := hevents
          rw [SafetyCoproDev.watchEvents_of_queueable hbeat.valid.queueable,
            if_pos ⟨hbeat, hroom frame rfl hbeat⟩] at hevents'
          cases hevents'
        rwa [if_neg hnot] at hns
      · split at hns
        · exact hns
        · cases hns
      · exact hns

/-- Every valid heartbeat of the daemon feeds the watchdog, and so the watchdog
is never due earlier than a timeout behind the last of them, exactly as long as
the heartbeats find room in the RX queue. -/
theorem heartbeats_feed_iff (dev : SafetyCoproDev) (inputs : List (DevOp × Context)) :
    (Machine.Along step Feeds { dev } inputs ∧ Machine.Always step OnTime { dev } inputs) ↔
      Machine.Along step FindsRoom { dev } inputs := by
  have hiff : Machine.Along step Feeds { dev } inputs ↔
      Machine.Along step FindsRoom { dev } inputs :=
    Machine.along_congr (P := fun _ => True) (fun _ _ _ => trivial) trivial inputs
      (fun b input _ _ => feeds_iff b input)
  have hinit : OnTime { dev } := by
    intro ns hns
    cases hns
  constructor
  · intro h
    exact hiff.mp h.1
  · intro h
    exact ⟨hiff.mpr h, Machine.always_of_along (fun _ _ hb => step_onTime hb) hinit h⟩

/-- Heartbeats every 100 ms into a queue of two slots that nobody reads. -/
def unreadHeartbeats : List (DevOp × Context) :=
  (List.range 5).map fun i =>
    (.ioctl (.pushRxFrame (some (packFrame safetyFrameHeartbeat (BitVec.ofNat 16 i) 0 []))),
      { armNs := BitVec.ofNat 64 (i * 100000000) })

/-- The watchdog stays set to 350 ms behind the second one, and the timer runs
out with the fifth 50 ms old. -/
theorem unreadHeartbeats_time_out :
    ∃ dev, safetyCoproInit 0 2 1 = some dev ∧
      (Machine.after step { dev } unreadHeartbeats).lastNs = some 400000000 ∧
      (Machine.after step { dev } unreadHeartbeats).dev.hbTimerExpires = 450000000 ∧
      (Machine.after step { dev } unreadHeartbeats).dev.heartbeatCount = 2 ∧
      ((Machine.after step { dev } unreadHeartbeats).dev.step (.hbTimer, {})).1.state =
        .hbTimeout ∧
      ¬ Machine.Along step Feeds { dev } unreadHeartbeats := by
  refine ⟨_, rfl, by decide +kernel, by decide +kernel, by decide +kernel, by decide +kernel, ?_⟩
  rintro ⟨-, -, hthird, -⟩
  exact absurd (hthird _ rfl (by decide +kernel)).1 (by decide +kernel)

end BeatWatch

end SafetyCopro
