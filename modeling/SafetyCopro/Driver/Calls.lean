import SafetyCopro.Driver.Queues
import SafetyCopro.Protocol.Streams

/-!
Everything a call can do to the device, one constructor for each way through the
driver, with the device behind it and what it traced. What holds of every step
is read off here.
-/

namespace SafetyCopro

/-- A heartbeat with nothing wrong about it. -/
structure ValidHeartbeat (frame : List U8) : Prop where
  valid : ValidFrame frame
  type : (SafetyFrameHeader.ofBytes frame).type = safetyFrameHeartbeat

instance (frame : List U8) : Decidable (ValidHeartbeat frame) :=
  decidable_of_iff
    (ValidFrame frame ∧ (SafetyFrameHeader.ofBytes frame).type = safetyFrameHeartbeat)
    ⟨fun h => ⟨h.1, h.2⟩, fun h => ⟨h.valid, h.type⟩⟩

theorem ValidFrame.queueable {frame : List U8} (h : ValidFrame frame) : Queueable frame :=
  ⟨h.isFrame, (safetyFrameValidate_ok_iff.mp h.valid).version⟩

theorem Queueable.validFrame {frame : List U8} (h : Queueable frame)
    (hok : safetyFrameValidate frame = .ok) : ValidFrame frame :=
  ⟨hok, h.1.2.2⟩

namespace SafetyCoproDev

section Effects
variable (dev : SafetyCoproDev) (ctx : Context)

/-- The device behind a push that found room in the RX queue. -/
def enqueueRx (frame : List U8) (seq : U16) (event : SafetyTimelineEvent) : SafetyCoproDev :=
  ({ dev with
      rxFifo := dev.rxFifo ++ [frame]
      fifoHighWatermark :=
        if (dev.rxFifo ++ [frame]).length > dev.fifoHighWatermark then
          (dev.rxFifo ++ [frame]).length
        else dev.fifoHighWatermark }.timelineRecordLocked event seq ctx.pushNs).percpuIncRx
    ctx.cpu frame.length

def enqueueTx (frame : List U8) (seq : U16) : SafetyCoproDev :=
  { dev with txFifo := dev.txFifo ++ [frame] }.timelineRecordLocked .recovery seq ctx.pushNs

/-- A frame of the driver's own goes into the queue or is counted as dropped. -/
def offerSynth (s : Synth) : SafetyCoproDev × List TraceEvent :=
  if dev.rxFifo.length < dev.fifoDepth then
    ({ dev with synthSeq := dev.synthSeq + 1 }.enqueueRx ctx (dev.synthFrame ctx s) dev.synthSeq
        (synthEvent s),
      [.frameReceived dev.synthSeq s.type (BitVec.ofNat 32 (dev.rxFifo.length + 1))])
  else { dev with synthSeq := dev.synthSeq + 1 }.recordDrop ctx dev.synthSeq s.type

/-- A frame of the daemon with a wrong checksum is counted before it is queued. -/
def checked (frame : List U8) : SafetyCoproDev :=
  if safetyFrameValidate frame = .badChecksum then dev.recordProtoError .badChecksum else dev

/-- A valid heartbeat feeds the watchdog. -/
def feed : SafetyCoproDev :=
  { dev with heartbeatCount := dev.heartbeatCount + 1, state := .hbOk }.timerRearm ctx

def injected (faultType : U32) : SafetyCoproDev :=
  { dev with
    faultCount := dev.faultCount + 1
    lastFaultType := faultType.setWidth 8
    lastFaultDetail := 0
    lastFaultTsNs := ctx.faultNs }

def expired : SafetyCoproDev :=
  { dev with
    hbTimerArmed := false
    timeoutCount := dev.timeoutCount + 1
    state := .hbTimeout
    lastFaultType := safetyFaultTaskHang
    lastFaultDetail := 1
    lastFaultTsNs := ctx.faultNs
    faultCount := dev.faultCount + 1 }.timelineRecordLocked .timeout 0 ctx.recordNs

def recovering : SafetyCoproDev :=
  { dev with
    recoveryWorkQueued := false
    retryCount := dev.retryCount + 1
    state := .recovering }.timelineRecordLocked .recovery 0 ctx.recordNs

end Effects

/-- The frame the watchdog makes when it expires. -/
def timeoutFault (ctx : Context) : Synth := .faultEvent safetyFaultTaskHang 1 1 ctx.uptimeMs

/-- The frame the recovery work makes. -/
def recoveryNotice (ctx : Context) : Synth :=
  .recoveryReport 1 SafetyLinkState.recovering.code ctx.uptimeMs

/-- A buffer that `safety_write` offers to the TX queue. -/
def Writable (ubuf : List U8) (fault : Bool) : Prop :=
  fault = false ∧ safetyHeaderSize ≤ ubuf.length ∧ ubuf.length ≤ safetyMaxFrameSize ∧
    safetyFrameValidate ubuf = .ok

instance (ubuf : List U8) (fault : Bool) : Decidable (Writable ubuf fault) :=
  inferInstanceAs (Decidable (_ ∧ _ ∧ _ ∧ _))

/-- The calls that can leave the device as it is. -/
def Idle (dev : SafetyCoproDev) : DevOp → Prop
  | .write ubuf fault => ¬ Writable ubuf fault
  | .poll => True
  | .read .. => False
  | .ioctl cmd =>
      match cmd with
      | .getStats _ | .getState _ | .unknown => True
      | .resetStats | .forceRecovery | .popTxFrame _ => False
      | .setHbTimeoutMs ms => ∀ m, ms = some m → m = 0
      | .injectFault faultType => faultType = none
      | .pushRxFrame io => ∀ frame, io = some frame → ¬ Queueable frame
  | .hbTimer => dev.hbTimerArmed = false
  | .recoveryWork => dev.recoveryWorkQueued = false

/-- The calls that end with a protocol error: they bring bytes that are no frame. -/
def Malformed : DevOp → Prop
  | .write ubuf fault => ¬ Writable ubuf fault
  | .ioctl (.pushRxFrame (some frame)) => ¬ Queueable frame
  | _ => False

/-- Only `poll` traces something without a change to the device. -/
inductive Unnoticed : List TraceEvent → Prop
  | nothing : Unnoticed []
  | polled (events : U32) : Unnoticed [.pollWakeup events]

inductive Called (dev : SafetyCoproDev) (ctx : Context) :
    DevOp → SafetyCoproDev → List TraceEvent → Prop
  | kept {op : DevOp} {trace : List TraceEvent} (hop : dev.Idle op) (htrace : Unnoticed trace) :
      Called dev ctx op dev trace
  | refused {op : DevOp} (hop : Malformed op) {vres : SafetyValidateResult} (h : vres ≠ .ok) :
      Called dev ctx op (dev.recordProtoError vres) []
  | written {ubuf : List U8} (h : Writable ubuf false)
      (hroom : dev.txFifo.length < dev.fifoDepth) :
      Called dev ctx (.write ubuf false)
        (dev.enqueueTx ctx ubuf (SafetyFrameHeader.ofBytes ubuf).sequenceId)
        [.frameReceived (SafetyFrameHeader.ofBytes ubuf).sequenceId
          (SafetyFrameHeader.ofBytes ubuf).type (BitVec.ofNat 32 (dev.txFifo.length + 1))]
  | writeDropped {ubuf : List U8} (seq : U16) (type : U8)
      (hfull : dev.fifoDepth ≤ dev.txFifo.length) :
      Called dev ctx (.write ubuf false) (dev.recordDrop ctx seq type).1 [.frameDropped seq type]
  | read (count : Nat) (nonblock fault : Bool) :
      Called dev ctx (.read count nonblock fault) dev.fifoPopFrame.1 []
  | popped (fault : Bool) :
      Called dev ctx (.ioctl (.popTxFrame fault)) dev.fifoPopTxFrame.1 []
  | reset : Called dev ctx (.ioctl .resetStats) dev.iocResetStats []
  | timeoutSet {ms : U32} (h : ms ≠ 0) :
      Called dev ctx (.ioctl (.setHbTimeoutMs (some ms)))
        ({ dev with hbTimeoutMs := ms }.timerRearm ctx) []
  | forced : Called dev ctx (.ioctl .forceRecovery) dev.recoverySchedule []
  | injected (faultType : U32) :
      Called dev ctx (.ioctl (.injectFault (some faultType)))
        ((dev.injected ctx faultType).offerSynth ctx
          (.faultEvent (faultType.setWidth 8) 2 0 ctx.uptimeMs)).1
        ((dev.injected ctx faultType).offerSynth ctx
          (.faultEvent (faultType.setWidth 8) 2 0 ctx.uptimeMs)).2
  | beat {frame : List U8} (h : ValidHeartbeat frame) (hroom : dev.rxFifo.length < dev.fifoDepth) :
      Called dev ctx (.ioctl (.pushRxFrame (some frame)))
        ((dev.enqueueRx ctx frame (SafetyFrameHeader.ofBytes frame).sequenceId .heartbeat).feed ctx)
        [.frameReceived (SafetyFrameHeader.ofBytes frame).sequenceId safetyFrameHeartbeat
          (BitVec.ofNat 32 (dev.rxFifo.length + 1))]
  | pushed {frame : List U8} (h : Queueable frame) (hbeat : ¬ ValidHeartbeat frame)
      (event : SafetyTimelineEvent) (hroom : dev.rxFifo.length < dev.fifoDepth) :
      Called dev ctx (.ioctl (.pushRxFrame (some frame)))
        ((dev.checked frame).enqueueRx ctx frame (SafetyFrameHeader.ofBytes frame).sequenceId event)
        [.frameReceived (SafetyFrameHeader.ofBytes frame).sequenceId
          (SafetyFrameHeader.ofBytes frame).type (BitVec.ofNat 32 (dev.rxFifo.length + 1))]
  | pushDropped {frame : List U8} (h : Queueable frame) (seq : U16) (type : U8)
      (hfull : dev.fifoDepth ≤ dev.rxFifo.length) :
      Called dev ctx (.ioctl (.pushRxFrame (some frame)))
        ((dev.checked frame).recordDrop ctx seq type).1 [.frameDropped seq type]
  | expired (harmed : dev.hbTimerArmed = true) :
      Called dev ctx .hbTimer
        ((dev.expired ctx).offerSynth ctx (timeoutFault ctx)).1.recoverySchedule
        (.timeoutDetected dev.hbTimeoutMs (dev.timeoutCount + 1) ::
          ((dev.expired ctx).offerSynth ctx (timeoutFault ctx)).2)
  | recovered (hqueued : dev.recoveryWorkQueued = true) :
      Called dev ctx .recoveryWork
        ((dev.recovering ctx).offerSynth ctx (recoveryNotice ctx)).1
        (.recoveryQueued (dev.retryCount + 1) ::
          ((dev.recovering ctx).offerSynth ctx (recoveryNotice ctx)).2)

/-! ### The helpers -/

variable {dev : SafetyCoproDev} (ctx : Context)

theorem fifoPushFrame_room {frame : List U8} (hpos : 0 < frame.length)
    (hmax : frame.length ≤ safetyMaxFrameSize) (hroom : dev.rxFifo.length < dev.fifoDepth)
    (seq : U16) (type : U8) (event : SafetyTimelineEvent) :
    dev.fifoPushFrame ctx frame seq type event =
      { dev := dev.enqueueRx ctx frame seq event
        trace := [.frameReceived seq type (BitVec.ofNat 32 (dev.rxFifo.length + 1))]
        result := .ok () } := by
  have hlen : ¬ (frame.length = 0 ∨ frame.length > safetyMaxFrameSize) := by omega
  have hqlen : (dev.rxFifo ++ [frame]).length = dev.rxFifo.length + 1 := List.length_append
  rw [← hqlen, fifoPushFrame, if_neg hlen, if_neg (Nat.not_le.mpr hroom)]
  rfl

theorem fifoPushFrame_full {frame : List U8} (hpos : 0 < frame.length)
    (hmax : frame.length ≤ safetyMaxFrameSize) (hfull : dev.fifoDepth ≤ dev.rxFifo.length)
    (seq : U16) (type : U8) (event : SafetyTimelineEvent) :
    dev.fifoPushFrame ctx frame seq type event = { dev, result := .error .enospc } := by
  have hlen : ¬ (frame.length = 0 ∨ frame.length > safetyMaxFrameSize) := by omega
  rw [fifoPushFrame, if_neg hlen, if_pos hfull]

theorem synthAndPush_eq (s : Synth) :
    (dev.synthAndPush ctx s).dev = (dev.offerSynth ctx s).1 ∧
      (dev.synthAndPush ctx s).trace = (dev.offerSynth ctx s).2 := by
  obtain ⟨hpos, hmax⟩ := @synthFrame_length dev ctx s
  have hframe : packFrame s.type dev.synthSeq ctx.nowMs s.payload = dev.synthFrame ctx s := rfl
  rw [synthAndPush, Synth.push_eq, offerSynth, hframe]
  by_cases hroom : dev.rxFifo.length < dev.fifoDepth
  · have hpush := @fifoPushFrame_room { dev with synthSeq := dev.synthSeq + 1 } ctx _ hpos hmax
      hroom dev.synthSeq s.type (synthEvent s)
    simp only [hpush, if_pos hroom, and_self]
  · have hpush := @fifoPushFrame_full { dev with synthSeq := dev.synthSeq + 1 } ctx _ hpos hmax
      (Nat.not_lt.mp hroom) dev.synthSeq s.type (synthEvent s)
    simp only [hpush, if_neg hroom, and_self]

theorem checked_room {frame : List U8} :
    (dev.checked frame).rxFifo = dev.rxFifo ∧ (dev.checked frame).fifoDepth = dev.fifoDepth := by
  rw [checked]
  split <;> exact ⟨rfl, rfl⟩

theorem checked_valid {frame : List U8} (h : safetyFrameValidate frame = .ok) :
    dev.checked frame = dev := by
  rw [checked, h]
  exact if_neg nofun

/-! ### The calls -/

theorem queueRxFromLinkd_checked {frame : List U8} (h : Queueable frame) :
    dev.queueRxFromLinkd ctx frame =
      (dev.checked frame).pushLinkdFrame ctx frame (safetyFrameValidate frame) := by
  rw [queueRxFromLinkd_eq ctx h, checked]
  by_cases hsum : safetyFrameValidate frame = .badChecksum
  · rw [if_pos hsum, if_pos hsum, hsum]
  · rw [if_neg hsum, if_neg hsum]

theorem queueRxFromLinkd_called {frame : List U8} (h : Queueable frame) :
    Called dev ctx (.ioctl (.pushRxFrame (some frame))) (dev.queueRxFromLinkd ctx frame).dev
      (dev.queueRxFromLinkd ctx frame).trace := by
  obtain ⟨hmin, hmax⟩ := h.1.length_le
  have hpos : 0 < frame.length := Nat.lt_of_lt_of_le (by decide) hmin
  obtain ⟨hrx, hdepth⟩ := @checked_room dev frame
  rw [queueRxFromLinkd_checked ctx h, pushLinkdFrame]
  by_cases hroom : dev.rxFifo.length < dev.fifoDepth
  · have hroom' : (dev.checked frame).rxFifo.length < (dev.checked frame).fifoDepth := by
      rwa [hrx, hdepth]
    simp only [fifoPushFrame_room ctx hpos hmax hroom', hrx]
    by_cases hbeat : ValidHeartbeat frame
    · simp only [hbeat.valid.valid, hbeat.type, and_self, if_true,
        checked_valid hbeat.valid.valid]
      exact .beat hbeat hroom
    · rw [if_neg fun hb => hbeat ⟨h.validFrame hb.1, hb.2⟩]
      exact .pushed h hbeat _ hroom
  · have hfull := Nat.not_lt.mp hroom
    have hfull' : (dev.checked frame).fifoDepth ≤ (dev.checked frame).rxFifo.length := by
      rwa [hrx, hdepth]
    simp only [fifoPushFrame_full ctx hpos hmax hfull']
    exact .pushDropped h _ _ hfull

theorem queueRxFromLinkd_malformed {frame : List U8} (h : ¬ Queueable frame) :
    Called dev ctx (.ioctl (.pushRxFrame (some frame))) (dev.queueRxFromLinkd ctx frame).dev
      (dev.queueRxFromLinkd ctx frame).trace := by
  have hidle : dev.Idle (.ioctl (.pushRxFrame (some frame))) := by
    intro frame' hframe
    obtain rfl := Option.some.inj hframe
    exact h
  have hkept : Called dev ctx (.ioctl (.pushRxFrame (some frame))) dev [] := .kept hidle .nothing
  have hbad : ∀ vres : SafetyValidateResult, vres ≠ .ok →
      Called dev ctx (.ioctl (.pushRxFrame (some frame))) (dev.recordProtoError vres) [] :=
    fun vres hvres => @Called.refused dev ctx (.ioctl (.pushRxFrame (some frame))) h vres hvres
  simp only [queueRxFromLinkd]
  split
  · exact hkept
  split
  · exact hkept
  split
  · exact hbad .badMagic (by decide)
  split
  · exact hbad .badVersion (by decide)
  split
  · exact hbad .badLength (by decide)
  split
  · exact hbad .badLength (by decide)
  rename_i hmagic hversion hfits hlen
  exact absurd ⟨⟨Decidable.not_not.mp hmagic, Nat.not_lt.mp hfits, Decidable.not_not.mp hlen⟩,
    Decidable.not_not.mp hversion⟩ h

theorem safetyWrite_called (ubuf : List U8) (fault : Bool) :
    Called dev ctx (.write ubuf fault) (dev.safetyWrite ctx ubuf fault).dev
      (dev.safetyWrite ctx ubuf fault).trace := by
  have hkept : ¬ Writable ubuf fault → Called dev ctx (.write ubuf fault) dev [] :=
    fun hnot => .kept hnot .nothing
  simp only [safetyWrite]
  split
  · rename_i hmin
    exact hkept fun h => Nat.not_lt.mpr h.2.1 hmin
  split
  · rename_i hmax
    exact hkept fun h => Nat.not_lt.mpr h.2.2.1 hmax
  rename_i hmin hmax
  split
  · rename_i hfault
    refine hkept fun h => ?_
    rw [h.1] at hfault
    cases hfault
  rename_i hfault
  obtain rfl := Bool.eq_false_iff.mpr hfault
  split
  · rename_i hvres
    exact @Called.refused dev ctx (.write ubuf false) (fun h => hvres h.2.2.2) _ hvres
  · rename_i hvres
    have hwritable : Writable ubuf false :=
      ⟨rfl, Nat.not_lt.mp hmin, Nat.not_lt.mp hmax, Decidable.not_not.mp hvres⟩
    have hpos : ¬ (ubuf.length = 0 ∨ ubuf.length > safetyMaxFrameSize) := by
      have h16 : safetyHeaderSize = 16 := rfl
      omega
    rw [fifoPushTxFrame, if_neg hpos]
    by_cases hfull : dev.fifoDepth ≤ dev.txFifo.length
    · rw [if_pos hfull]
      exact .writeDropped _ _ hfull
    · have hqlen : (dev.txFifo ++ [ubuf]).length = dev.txFifo.length + 1 := List.length_append
      have hwritten := @Called.written dev ctx ubuf hwritable (Nat.lt_of_not_le hfull)
      rw [if_neg hfull]
      rw [← hqlen] at hwritten
      exact hwritten

theorem safetyRead_called (count : Nat) (nonblock fault : Bool) :
    Called dev ctx (.read count nonblock fault) (dev.safetyRead count nonblock fault).dev
      (dev.safetyRead count nonblock fault).trace := by
  have hread : Called dev ctx (.read count nonblock fault) dev.fifoPopFrame.1 [] :=
    .read count nonblock fault
  simp only [safetyRead]
  split
  · exact hread
  split
  · exact hread
  split <;> exact hread

@[simp] theorem reply_trace {α : Type} (o : Outcome α) (reply : α → Reply) :
    (o.reply reply).trace = o.trace := rfl

theorem iocInjectFault_eq (faultType : U32) :
    (dev.iocInjectFault ctx faultType).dev =
        ((dev.injected ctx faultType).offerSynth ctx
          (.faultEvent (faultType.setWidth 8) 2 0 ctx.uptimeMs)).1 ∧
      (dev.iocInjectFault ctx faultType).trace =
        ((dev.injected ctx faultType).offerSynth ctx
          (.faultEvent (faultType.setWidth 8) 2 0 ctx.uptimeMs)).2 := by
  rw [iocInjectFault]
  exact @synthAndPush_eq (dev.injected ctx faultType) ctx
    (.faultEvent (faultType.setWidth 8) 2 0 ctx.uptimeMs)

theorem hbTimerFn_eq :
    ({ dev with hbTimerArmed := false }.hbTimerFn ctx).dev =
        ((dev.expired ctx).offerSynth ctx (timeoutFault ctx)).1.recoverySchedule ∧
      ({ dev with hbTimerArmed := false }.hbTimerFn ctx).trace =
        .timeoutDetected dev.hbTimeoutMs (dev.timeoutCount + 1) ::
          ((dev.expired ctx).offerSynth ctx (timeoutFault ctx)).2 := by
  obtain ⟨hdev, htrace⟩ := @synthAndPush_eq (dev.expired ctx) ctx (timeoutFault ctx)
  rw [← hdev, ← htrace, hbTimerFn]
  exact ⟨congrArg recoverySchedule rfl, rfl⟩

theorem recoveryWorkFn_eq :
    ({ dev with recoveryWorkQueued := false }.recoveryWorkFn ctx).dev =
        ((dev.recovering ctx).offerSynth ctx (recoveryNotice ctx)).1 ∧
      ({ dev with recoveryWorkQueued := false }.recoveryWorkFn ctx).trace =
        .recoveryQueued (dev.retryCount + 1) ::
          ((dev.recovering ctx).offerSynth ctx (recoveryNotice ctx)).2 := by
  obtain ⟨hdev, htrace⟩ := @synthAndPush_eq (dev.recovering ctx) ctx (recoveryNotice ctx)
  rw [← hdev, ← htrace, recoveryWorkFn]
  exact ⟨rfl, rfl⟩

theorem safetyIoctl_called (cmd : Ioctl) :
    Called dev ctx (.ioctl cmd) (dev.safetyIoctl ctx cmd).dev (dev.safetyIoctl ctx cmd).trace := by
  cases cmd with
  | getStats fault => exact .kept trivial .nothing
  | resetStats => exact .reset
  | setHbTimeoutMs ms =>
      cases ms with
      | none => exact .kept (fun _ hio => by cases hio) .nothing
      | some ms =>
          rw [safetyIoctl]
          split
          · rename_i hms
            refine .kept (fun m hm => ?_) .nothing
            rw [← Option.some.inj hm, hms]
          · exact .timeoutSet ‹_›
  | getState fault => exact .kept trivial .nothing
  | forceRecovery => exact .forced
  | injectFault faultType =>
      cases faultType with
      | none => exact .kept rfl .nothing
      | some faultType =>
          obtain ⟨hdev, htrace⟩ := @iocInjectFault_eq dev ctx faultType
          rw [safetyIoctl, reply_dev, reply_trace, hdev, htrace]
          exact .injected faultType
  | pushRxFrame io =>
      cases io with
      | none => exact .kept (fun _ hio => by cases hio) .nothing
      | some frame =>
          rw [safetyIoctl]
          by_cases hframe : Queueable frame
          · rw [if_neg (Nat.not_lt.mpr hframe.1.length_le.2)]
            exact queueRxFromLinkd_called ctx hframe
          · split
            · refine .kept (fun frame' hframe' => ?_) .nothing
              rwa [← Option.some.inj hframe']
            · exact queueRxFromLinkd_malformed ctx hframe
  | popTxFrame fault =>
      have hpopped : Called dev ctx (.ioctl (.popTxFrame fault)) dev.fifoPopTxFrame.1 [] :=
        .popped fault
      simp only [safetyIoctl]
      split
      · exact hpopped
      split <;> exact hpopped
  | unknown => exact .kept trivial .nothing

theorem call_called (op : DevOp) :
    Called dev ctx op (dev.call ctx op).dev (dev.call ctx op).trace := by
  cases op with
  | write ubuf fault => exact safetyWrite_called ctx ubuf fault
  | read count nonblock fault => exact safetyRead_called ctx count nonblock fault
  | poll =>
      refine .kept trivial ?_
      simp only [call, Outcome.reply, safetyPoll]
      split
      · exact .polled _
      · exact .nothing
  | ioctl cmd => exact safetyIoctl_called ctx cmd
  | hbTimer =>
      rw [call]
      split
      · rename_i harmed
        obtain ⟨hdev, htrace⟩ := @hbTimerFn_eq dev ctx
        rw [reply_dev, reply_trace, hdev, htrace]
        exact .expired harmed
      · rename_i harmed
        exact .kept (Bool.eq_false_iff.mpr harmed) .nothing
  | recoveryWork =>
      rw [call]
      split
      · rename_i hqueued
        obtain ⟨hdev, htrace⟩ := @recoveryWorkFn_eq dev ctx
        rw [reply_dev, reply_trace, hdev, htrace]
        exact .recovered hqueued
      · rename_i hqueued
        exact .kept (Bool.eq_false_iff.mpr hqueued) .nothing

end SafetyCoproDev

end SafetyCopro
