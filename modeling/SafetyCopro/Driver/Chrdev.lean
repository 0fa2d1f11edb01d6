import SafetyCopro.Driver.Device

/-!
The calls on the device: the file operations of `safety_copro_chrdev.c`, the
watchdog of `safety_copro_timer.c` and the work of `safety_copro_workqueue.c`,
and the machine whose inputs they are.
-/

namespace SafetyCopro

namespace SafetyCoproDev

def recordProtoError (dev : SafetyCoproDev) (vres : SafetyValidateResult) : SafetyCoproDev :=
  let dev := { dev with
    protocolErrorCount := dev.protocolErrorCount + 1
    lastProtoErr := vres }
  match vres with
  | .badMagic => { dev with protoErrMagic := dev.protoErrMagic + 1 }
  | .badVersion => { dev with protoErrVersion := dev.protoErrVersion + 1 }
  | .badLength => { dev with protoErrLength := dev.protoErrLength + 1 }
  | .badChecksum => { dev with protoErrChecksum := dev.protoErrChecksum + 1 }
  | .ok => dev

/-- `hrtimer_start` with a relative time, whether the timer is active or not. -/
def timerRearm (dev : SafetyCoproDev) (ctx : Context) : SafetyCoproDev :=
  { dev with
    hbTimerArmed := true
    hbTimerExpires := ctx.armNs + dev.hbTimeoutMs.setWidth 64 * 1000000 }

/-- `schedule_work` leaves a queued work where it is. -/
def recoverySchedule (dev : SafetyCoproDev) : SafetyCoproDev :=
  { dev with recoveryWorkQueued := true }

/-- The end of `queue_rx_from_linkd`: a frame whose header is right goes into the
queue, and a valid heartbeat feeds the watchdog. -/
def pushLinkdFrame (dev : SafetyCoproDev) (ctx : Context) (frame : List U8)
    (vres : SafetyValidateResult) : Outcome Unit :=
  let hdr := SafetyFrameHeader.ofBytes frame
  let event := if hdr.type = safetyFrameHeartbeat then .heartbeat else .frameRx
  let pushed := dev.fifoPushFrame ctx frame hdr.sequenceId hdr.type event
  match pushed.result with
  | .error .enospc =>
      let (dev, trace) := pushed.dev.recordDrop ctx hdr.sequenceId hdr.type
      { dev, trace, result := .error .enospc }
  | .error e => { pushed with result := .error e }
  | .ok () =>
      if vres = .ok ∧ hdr.type = safetyFrameHeartbeat then
        let dev := { pushed.dev with
          heartbeatCount := pushed.dev.heartbeatCount + 1
          state := .hbOk }
        { pushed with dev := dev.timerRearm ctx }
      else pushed

/-- A frame of the link daemon. One with a wrong checksum is counted and queued
all the same, for the supervisor to answer. -/
def queueRxFromLinkd (dev : SafetyCoproDev) (ctx : Context) (frame : List U8) : Outcome Unit :=
  if frame.length < safetyHeaderSize then { dev, result := .error .einval }
  else if frame.length > safetyMaxFrameSize then { dev, result := .error .emsgsize }
  else
    let hdr := SafetyFrameHeader.ofBytes frame
    if hdr.magic ≠ safetyProtoMagic then
      { dev := dev.recordProtoError .badMagic, result := .error .einval }
    else if hdr.version ≠ safetyProtoVersion then
      { dev := dev.recordProtoError .badVersion, result := .error .einval }
    else if hdr.payloadLength.toNat > safetyMaxPayload then
      { dev := dev.recordProtoError .badLength, result := .error .einval }
    else if frame.length ≠ safetyHeaderSize + hdr.payloadLength.toNat then
      { dev := dev.recordProtoError .badLength, result := .error .einval }
    else
      let vres := safetyFrameValidate frame
      if vres ≠ .ok ∧ vres ≠ .badChecksum then
        { dev := dev.recordProtoError vres, result := .error .einval }
      else
        let dev := if vres = .badChecksum then dev.recordProtoError vres else dev
        dev.pushLinkdFrame ctx frame vres

/-- `safety_write`, with the buffer of the call; `fault` is a buffer that cannot
be read. -/
def safetyWrite (dev : SafetyCoproDev) (ctx : Context) (ubuf : List U8) (fault : Bool) :
    Outcome Nat :=
  if ubuf.length < safetyHeaderSize then { dev, result := .error .einval }
  else if ubuf.length > safetyMaxFrameSize then { dev, result := .error .emsgsize }
  else if fault then { dev, result := .error .efault }
  else
    let vres := safetyFrameValidate ubuf
    if vres ≠ .ok then { dev := dev.recordProtoError vres, result := .error .einval }
    else
      let hdr := SafetyFrameHeader.ofBytes ubuf
      let pushed := dev.fifoPushTxFrame ctx ubuf hdr.sequenceId hdr.type
      match pushed.result with
      | .error .enospc =>
          let (dev, trace) := pushed.dev.recordDrop ctx hdr.sequenceId hdr.type
          { dev, trace, result := .error .eagain }
      | .error e => { dev := pushed.dev, trace := pushed.trace, result := .error e }
      | .ok () => { dev := pushed.dev, trace := pushed.trace, result := .ok ubuf.length }

/-- `safety_read` with room for `count` bytes. On an empty queue a blocking read
ends only with a signal; woken by a frame, it is a read of that later moment. -/
def safetyRead (dev : SafetyCoproDev) (count : Nat) (nonblock fault : Bool) :
    Outcome (List U8) :=
  let (dev, slot) := dev.fifoPopFrame
  if slot.length = 0 then { dev, result := .error (if nonblock then .eagain else .erestartsys) }
  else if count < slot.length then { dev, result := .error .einval }
  else if fault then { dev, result := .error .efault }
  else { dev, result := .ok slot }

def epollIn : U32 := 0x001
def epollPri : U32 := 0x002
def epollRdNorm : U32 := 0x040

def safetyPoll (dev : SafetyCoproDev) : Outcome U32 :=
  let readable := if 0 < dev.rxFifo.length then epollIn ||| epollRdNorm else 0
  { dev
    trace := if 0 < dev.rxFifo.length then [.pollWakeup readable] else []
    result := .ok (if 0 < dev.txFifo.length then readable ||| epollPri else readable) }

structure SafetyCoproStats where
  currentState : SafetyLinkState
  heartbeatCount : U32
  faultCount : U32
  droppedFrameCount : U32
  timeoutCount : U32
  retryCount : U32
  protocolErrorCount : U32
  rxFramesTotal : U32
  rxQueueDepth : U32
  txQueueDepth : U32
deriving DecidableEq, Repr

def stats (dev : SafetyCoproDev) : SafetyCoproStats where
  currentState := dev.state
  heartbeatCount := dev.heartbeatCount
  faultCount := dev.faultCount
  droppedFrameCount := dev.droppedFrameCount
  timeoutCount := dev.timeoutCount
  retryCount := dev.retryCount
  protocolErrorCount := dev.protocolErrorCount
  rxFramesTotal := dev.percpuSum.rxFrames.setWidth 32
  rxQueueDepth := BitVec.ofNat 32 dev.rxFifo.length
  txQueueDepth := BitVec.ofNat 32 dev.txFifo.length

def iocResetStats (dev : SafetyCoproDev) : SafetyCoproDev :=
  { dev with
    heartbeatCount := 0
    faultCount := 0
    droppedFrameCount := 0
    timeoutCount := 0
    retryCount := 0
    protocolErrorCount := 0
    fifoHighWatermark := 0
    protoErrMagic := 0
    protoErrVersion := 0
    protoErrLength := 0
    protoErrChecksum := 0
    lastProtoErr := .ok
    lastFaultType := safetyFaultNone
    lastFaultDetail := 0
    lastFaultTsNs := 0
    timelineHead := 0
    timelineFilled := 0 }.percpuReset

def iocInjectFault (dev : SafetyCoproDev) (ctx : Context) (faultType : U32) : Outcome Unit :=
  let dev := { dev with
    faultCount := dev.faultCount + 1
    lastFaultType := faultType.setWidth 8
    lastFaultDetail := 0
    lastFaultTsNs := ctx.faultNs }
  let synth := dev.synthAndPush ctx (.faultEvent (faultType.setWidth 8) 2 0 ctx.uptimeMs)
  { synth with result := .ok () }

def hbTimerFn (dev : SafetyCoproDev) (ctx : Context) : Outcome Unit :=
  let dev := { dev with
    timeoutCount := dev.timeoutCount + 1
    state := .hbTimeout
    lastFaultType := safetyFaultTaskHang
    lastFaultDetail := 1
    lastFaultTsNs := ctx.faultNs
    faultCount := dev.faultCount + 1 }.timelineRecordLocked .timeout 0 ctx.recordNs
  let synth := dev.synthAndPush ctx (.faultEvent safetyFaultTaskHang 1 1 ctx.uptimeMs)
  { dev := synth.dev.recoverySchedule
    trace := .timeoutDetected dev.hbTimeoutMs dev.timeoutCount :: synth.trace
    result := .ok () }

def recoveryWorkFn (dev : SafetyCoproDev) (ctx : Context) : Outcome Unit :=
  let dev := { dev with
    retryCount := dev.retryCount + 1
    state := .recovering }.timelineRecordLocked .recovery 0 ctx.recordNs
  let synth := dev.synthAndPush ctx
    (.recoveryReport 1 SafetyLinkState.recovering.code ctx.uptimeMs)
  { synth with trace := .recoveryQueued dev.retryCount :: synth.trace, result := .ok () }

end SafetyCoproDev

/-! ### The machine -/

/-- The commands of `safety_ioctl`. An argument that cannot be copied in is
`none`, and one that cannot be copied out is a fault. -/
inductive Ioctl
  | getStats (fault : Bool)
  | resetStats
  | setHbTimeoutMs (ms : Option U32)
  | getState (fault : Bool)
  | forceRecovery
  | injectFault (faultType : Option U32)
  | pushRxFrame (io : Option (List U8))
  | popTxFrame (fault : Bool)
  | unknown
deriving DecidableEq, Repr

inductive DevOp
  | write (ubuf : List U8) (fault : Bool)
  | read (count : Nat) (nonblock fault : Bool)
  | poll
  | ioctl (cmd : Ioctl)
  -- the watchdog expires, if it is armed
  | hbTimer
  -- the work queue runs the recovery work, if it is queued
  | recoveryWork
deriving DecidableEq, Repr

inductive Reply
  | done
  | count (n : Nat)
  | frame (bytes : List U8)
  | mask (events : U32)
  | stats (st : SafetyCoproDev.SafetyCoproStats)
  | state (st : SafetyLinkState)
deriving DecidableEq, Repr

inductive DevEvent
  | traced (e : TraceEvent)
  | returned (reply : Except Errno Reply)
deriving Repr

def Outcome.reply {α : Type} (o : Outcome α) (reply : α → Reply) : Outcome Reply :=
  { o with result := o.result.map reply }

namespace SafetyCoproDev

def safetyIoctl (dev : SafetyCoproDev) (ctx : Context) : Ioctl → Outcome Reply
  | .getStats fault =>
      { dev, result := if fault then .error .efault else .ok (.stats dev.stats) }
  | .resetStats => { dev := dev.iocResetStats, result := .ok .done }
  | .setHbTimeoutMs none => { dev, result := .error .efault }
  | .setHbTimeoutMs (some ms) =>
      if ms = 0 then { dev, result := .error .einval }
      else { dev := { dev with hbTimeoutMs := ms }.timerRearm ctx, result := .ok .done }
  | .getState fault =>
      { dev, result := if fault then .error .efault else .ok (.state dev.state) }
  | .forceRecovery => { dev := dev.recoverySchedule, result := .ok .done }
  | .injectFault none => { dev, result := .error .efault }
  | .injectFault (some faultType) => (dev.iocInjectFault ctx faultType).reply fun _ => .done
  | .pushRxFrame none => { dev, result := .error .efault }
  | .pushRxFrame (some frame) =>
      if frame.length > safetyMaxFrameSize then { dev, result := .error .emsgsize }
      else (dev.queueRxFromLinkd ctx frame).reply fun _ => .done
  | .popTxFrame fault =>
      let (dev, slot) := dev.fifoPopTxFrame
      if slot.length = 0 then { dev, result := .error .eagain }
      else if fault then { dev, result := .error .efault }
      else { dev, result := .ok (.frame slot) }
  | .unknown => { dev, result := .error .enotty }

def call (dev : SafetyCoproDev) (ctx : Context) : DevOp → Outcome Reply
  | .write ubuf fault => (dev.safetyWrite ctx ubuf fault).reply .count
  | .read count nonblock fault => (dev.safetyRead count nonblock fault).reply .frame
  | .poll => dev.safetyPoll.reply .mask
  | .ioctl cmd => dev.safetyIoctl ctx cmd
  | .hbTimer =>
      if dev.hbTimerArmed then
        ({ dev with hbTimerArmed := false }.hbTimerFn ctx).reply fun _ => .done
      else { dev, result := .ok .done }
  | .recoveryWork =>
      if dev.recoveryWorkQueued then
        ({ dev with recoveryWorkQueued := false }.recoveryWorkFn ctx).reply fun _ => .done
      else { dev, result := .ok .done }

def step (dev : SafetyCoproDev) (input : DevOp × Context) : SafetyCoproDev × List DevEvent :=
  let o := dev.call input.2 input.1
  (o.dev, o.trace.map .traced ++ [.returned o.result])

end SafetyCoproDev

end SafetyCopro
