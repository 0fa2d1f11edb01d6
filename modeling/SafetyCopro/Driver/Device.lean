import SafetyCopro.Driver.Synth

/-!
The Linux driver, `linux/drivers/safety_copro`. The device is one record under
one spinlock; every system call, the watchdog's expiry and the recovery work is
one step on it. A slot of a queue is the list of its `len` bytes.
-/

namespace SafetyCopro

abbrev U64 := BitVec 64

inductive Errno
  | einval | emsgsize | efault | enospc | eagain | erestartsys | enotty
deriving DecidableEq, Repr

inductive SafetyLinkState
  | booting | hbOk | hbTimeout | recovering
deriving DecidableEq, Repr

def SafetyLinkState.code : SafetyLinkState → U8
  | .booting => 0
  | .hbOk => 1
  | .hbTimeout => 2
  | .recovering => 3

inductive SafetyTimelineEvent
  | none | frameRx | frameDrop | heartbeat | timeout | recovery | faultInject
deriving DecidableEq, Repr

structure SafetyTimelineEntry where
  tsNs : U64 := 0
  event : SafetyTimelineEvent := .none
  seq : U16 := 0
deriving DecidableEq, Repr

structure SafetyCoproPcpu where
  rxFrames : U64 := 0
  dropped : U64 := 0
  bytes : U64 := 0
deriving DecidableEq, Repr

/-- The tracepoints of `safety_copro_trace.h`. -/
inductive TraceEvent
  | frameReceived (seq : U16) (type : U8) (qlen : U32)
  | frameDropped (seq : U16) (type : U8)
  | timeoutDetected (timeoutMs count : U32)
  | recoveryQueued (count : U32)
  | pollWakeup (events : U32)
deriving DecidableEq, Repr

def safetyDefaultHbTimeoutMs : U32 := 350
def safetyDefaultFifoDepth : Nat := 64
def safetyTimelineDepth : Nat := 64

/-- `struct safety_copro_dev`. The watchdog is armed or not, with the time of the
clock it is set to, and the recovery work is queued or not. -/
structure SafetyCoproDev where
  rxFifo : List (List U8) := []
  txFifo : List (List U8) := []
  fifoDepth : Nat
  fifoHighWatermark : Nat := 0
  state : SafetyLinkState := .booting
  heartbeatCount : U32 := 0
  faultCount : U32 := 0
  droppedFrameCount : U32 := 0
  timeoutCount : U32 := 0
  retryCount : U32 := 0
  protocolErrorCount : U32 := 0
  synthSeq : U16 := 0
  hbTimerArmed : Bool := false
  hbTimerExpires : U64 := 0
  hbTimeoutMs : U32
  recoveryWorkQueued : Bool := false
  lastFaultType : U8 := 0
  lastFaultDetail : U16 := 0
  lastFaultTsNs : U64 := 0
  lastProtoErr : SafetyValidateResult := .ok
  protoErrMagic : U32 := 0
  protoErrVersion : U32 := 0
  protoErrLength : U32 := 0
  protoErrChecksum : U32 := 0
  timeline : List SafetyTimelineEntry := List.replicate safetyTimelineDepth {}
  timelineHead : Nat := 0
  timelineFilled : Nat := 0
  pcpu : List SafetyCoproPcpu
deriving DecidableEq, Repr

/-- What a step reads of the machine it runs on: the CPU, and the clock each
time it is looked at. -/
structure Context where
  cpu : Nat := 0
  faultNs : U64 := 0
  recordNs : U64 := 0
  uptimeMs : U32 := 0
  nowMs : U32 := 0
  pushNs : U64 := 0
  armNs : U64 := 0
deriving DecidableEq, Repr

/-- How a call ends: the device behind it, what it traced and what it returned. -/
structure Outcome (α : Type) where
  dev : SafetyCoproDev
  trace : List TraceEvent := []
  result : Except Errno α

def roundupPowOfTwo (n : Nat) : Nat := if n ≤ 1 then 1 else 2 ^ (Nat.log2 (n - 1) + 1)

/-- `safety_copro_init`, by the module parameters and the number of CPUs.
`kfifo_alloc` refuses a queue of fewer than two slots. -/
def safetyCoproInit (hbTimeoutMs : U32) (fifoDepth cpus : Nat) : Option SafetyCoproDev :=
  let depth := roundupPowOfTwo (if fifoDepth = 0 then safetyDefaultFifoDepth else fifoDepth)
  if depth < 2 then none
  else
    some
      { fifoDepth := depth
        hbTimeoutMs := if hbTimeoutMs = 0 then safetyDefaultHbTimeoutMs else hbTimeoutMs
        pcpu := List.replicate cpus {} }

namespace SafetyCoproDev

/-! ### `safety_copro_percpu.c` -/

def percpuIncRx (dev : SafetyCoproDev) (cpu bytes : Nat) : SafetyCoproDev :=
  { dev with
    pcpu := dev.pcpu.modify cpu fun p =>
      { p with rxFrames := p.rxFrames + 1, bytes := p.bytes + BitVec.ofNat 64 bytes } }

def percpuIncDropped (dev : SafetyCoproDev) (cpu : Nat) : SafetyCoproDev :=
  { dev with pcpu := dev.pcpu.modify cpu fun p => { p with dropped := p.dropped + 1 } }

def percpuReset (dev : SafetyCoproDev) : SafetyCoproDev :=
  { dev with pcpu := dev.pcpu.map fun _ => {} }

def percpuSum (dev : SafetyCoproDev) : SafetyCoproPcpu :=
  dev.pcpu.foldl (fun sum p =>
    ⟨sum.rxFrames + p.rxFrames, sum.dropped + p.dropped, sum.bytes + p.bytes⟩) {}

/-! ### `safety_copro_kfifo.c` -/

def timelineRecordLocked (dev : SafetyCoproDev) (event : SafetyTimelineEvent) (seq : U16)
    (tsNs : U64) : SafetyCoproDev :=
  { dev with
    timeline := dev.timeline.set dev.timelineHead ⟨tsNs, event, seq⟩
    timelineHead := (dev.timelineHead + 1) % safetyTimelineDepth
    timelineFilled :=
      if dev.timelineFilled < safetyTimelineDepth then dev.timelineFilled + 1
      else dev.timelineFilled }

def fifoPushFrame (dev : SafetyCoproDev) (ctx : Context) (frame : List U8) (seq : U16) (type : U8)
    (event : SafetyTimelineEvent) : Outcome Unit :=
  if frame.length = 0 ∨ frame.length > safetyMaxFrameSize then
    { dev, result := .error .emsgsize }
  else if dev.fifoDepth ≤ dev.rxFifo.length then { dev, result := .error .enospc }
  else
    let dev := { dev with rxFifo := dev.rxFifo ++ [frame] }
    let qlen := dev.rxFifo.length
    let dev := { dev with
      fifoHighWatermark := if qlen > dev.fifoHighWatermark then qlen else dev.fifoHighWatermark }
    let dev := (dev.timelineRecordLocked event seq ctx.pushNs).percpuIncRx ctx.cpu frame.length
    { dev, trace := [.frameReceived seq type (BitVec.ofNat 32 qlen)], result := .ok () }

/-- An empty list is the 0 returned for an empty queue. -/
def fifoPopFrame (dev : SafetyCoproDev) : SafetyCoproDev × List U8 :=
  match dev.rxFifo with
  | [] => (dev, [])
  | slot :: rest => ({ dev with rxFifo := rest }, slot)

def fifoPushTxFrame (dev : SafetyCoproDev) (ctx : Context) (frame : List U8) (seq : U16)
    (type : U8) : Outcome Unit :=
  if frame.length = 0 ∨ frame.length > safetyMaxFrameSize then
    { dev, result := .error .emsgsize }
  else if dev.fifoDepth ≤ dev.txFifo.length then { dev, result := .error .enospc }
  else
    let dev := { dev with txFifo := dev.txFifo ++ [frame] }
    let dev := dev.timelineRecordLocked .recovery seq ctx.pushNs
    { dev, trace := [.frameReceived seq type (BitVec.ofNat 32 dev.txFifo.length)]
      result := .ok () }

def fifoPopTxFrame (dev : SafetyCoproDev) : SafetyCoproDev × List U8 :=
  match dev.txFifo with
  | [] => (dev, [])
  | slot :: rest => ({ dev with txFifo := rest }, slot)

/-- `record_drop`; a synthesised frame that finds the queue full is counted in the
same way. -/
def recordDrop (dev : SafetyCoproDev) (ctx : Context) (seq : U16) (type : U8) :
    SafetyCoproDev × List TraceEvent :=
  (({ dev with droppedFrameCount := dev.droppedFrameCount + 1 }).percpuIncDropped ctx.cpu,
    [.frameDropped seq type])

/-- The event that goes into the timeline with a frame the driver made. -/
def synthEvent : Synth → SafetyTimelineEvent
  | .faultEvent .. => .faultInject
  | .recoveryReport .. => .recovery

/-- `safety_synth_fault_event` and `safety_synth_recovery_report`. -/
def synthAndPush (dev : SafetyCoproDev) (ctx : Context) (s : Synth) : Outcome Unit :=
  match s.push dev.synthSeq ctx.nowMs with
  | (synthSeq, none) => { dev := { dev with synthSeq }, result := .error .emsgsize }
  | (synthSeq, some frame) =>
      let pushed := fifoPushFrame { dev with synthSeq } ctx frame dev.synthSeq s.type (synthEvent s)
      match pushed.result with
      | .error .enospc =>
          let (dev, trace) := pushed.dev.recordDrop ctx dev.synthSeq s.type
          { dev, trace, result := .error .enospc }
      | _ => pushed

end SafetyCoproDev

end SafetyCopro
