import SafetyCopro.Lib.Interleave
import SafetyCopro.Driver.Counters

/-!
The calls on the device as they run on several CPUs and under interrupts: between
two sections under the lock another call can come. A section is what one call does
under the lock once, or one access without it, with the work on its own variables
behind it.
-/

namespace SafetyCopro

/-- Who pushes a frame into the RX queue. The daemon's frames have been validated
before. -/
inductive Pusher
  | linkd (vres : SafetyValidateResult)
  | driver
deriving DecidableEq, Repr

inductive Section
  -- `record_proto_error`
  | protoError (vres : SafetyValidateResult)
  -- `safety_fifo_push_frame`
  | push (frame : List U8) (seq : U16) (type : U8) (event : SafetyTimelineEvent) (pusher : Pusher)
  | incRx (bytes : Nat)
  | trace (e : TraceEvent)
  -- `record_drop`
  | countDrop (seq : U16) (type : U8)
  | incDropped
  -- the heartbeat in `queue_rx_from_linkd`
  | feed
  -- `safety_timer_rearm`
  | readTimeout
  | startTimer (ms : U32)
  -- `safety_fifo_push_tx_frame`
  | pushTx (frame : List U8) (seq : U16) (type : U8)
  | traceTx (seq : U16) (type : U8)
  -- `safety_read`
  | pop (count : Nat) (nonblock fault : Bool)
  | waitReadable (count : Nat) (fault : Bool)
  -- `safety_poll`
  | pollRx
  | pollTx (mask : U32)
  -- `ioc_get_stats`
  | copyStats (fault : Bool)
  | sumCpu (st : SafetyCoproDev.SafetyCoproStats) (sum : SafetyCoproPcpu) (cpu : Nat) (fault : Bool)
  | rxDepth (st : SafetyCoproDev.SafetyCoproStats) (fault : Bool)
  | txDepth (st : SafetyCoproDev.SafetyCoproStats) (fault : Bool)
  -- `ioc_reset_stats`
  | resetLocked
  | resetCpu (cpu : Nat)
  | setTimeout (ms : U32)
  | getState (fault : Bool)
  | inject (faultType : U32)
  -- `safety_synth_and_push`
  | takeSeq (s : Synth)
  -- `hb_timer_fn`
  | fire
  | expire
  -- `safety_recovery_schedule` and `recovery_work_fn`
  | schedule
  | dequeue
  | recover
  | popTx (fault : Bool)
  | ret (result : Except Errno Reply)

/-- What a section puts out: what a call traces and returns, and, for the record,
the numbers it takes for frames of the driver and the frames it puts into the RX
queue. -/
inductive SectionEvent
  | seen (e : DevEvent)
  | made (seq : U16)
  | queued (frame : List U8) (pusher : Pusher)

def SectionEvent.devEvent : SectionEvent → Option DevEvent
  | .seen e => some e
  | .made _ | .queued _ _ => none

/-- What a section reads of the machine, and whether a signal is there for a call
that waits. -/
structure SectionEnv where
  ctx : Context := {}
  signalled : Bool := false

namespace SafetyCoproDev
open Interleave (Effect Allowed Move)

/-- `safety_fifo_push_frame` under the lock, where there is room. -/
def enqueueLocked (dev : SafetyCoproDev) (ctx : Context) (frame : List U8) (seq : U16)
    (event : SafetyTimelineEvent) : SafetyCoproDev :=
  { dev with
    rxFifo := dev.rxFifo ++ [frame]
    fifoHighWatermark :=
      if (dev.rxFifo ++ [frame]).length > dev.fifoHighWatermark then
        (dev.rxFifo ++ [frame]).length
      else dev.fifoHighWatermark }.timelineRecordLocked event seq ctx.pushNs

/-- What a push of the daemon goes on with behind the queue. -/
def pushedBy (pusher : Pusher) (type : U8) (result : Except Errno Unit) : List Section :=
  match pusher with
  | .driver => []
  | .linkd vres =>
      match result with
      | .ok () =>
          (if vres = .ok ∧ type = safetyFrameHeartbeat then [.feed] else []) ++ [.ret (.ok .done)]
      | .error e => [.ret (.error e)]

def resetUnderLock (dev : SafetyCoproDev) : SafetyCoproDev :=
  { dev.iocResetStats with pcpu := dev.pcpu }

def exec (a : Section) (env : SectionEnv) (dev : SafetyCoproDev) :
    Effect SafetyCoproDev Section SectionEvent :=
  match a with
  | .protoError vres => { shared := dev.recordProtoError vres }
  | .push frame seq type event pusher =>
      if frame.length = 0 ∨ frame.length > safetyMaxFrameSize then
        { shared := dev, next := pushedBy pusher type (.error .emsgsize) }
      else if dev.fifoDepth ≤ dev.rxFifo.length then
        { shared := dev, next := .countDrop seq type :: pushedBy pusher type (.error .enospc) }
      else
        { shared := dev.enqueueLocked env.ctx frame seq event
          next := .incRx frame.length ::
            .trace (.frameReceived seq type (BitVec.ofNat 32 (dev.rxFifo.length + 1))) ::
            pushedBy pusher type (.ok ())
          out := [.queued frame pusher] }
  | .incRx bytes => { shared := dev.percpuIncRx env.ctx.cpu bytes }
  | .trace e => { shared := dev, out := [.seen (.traced e)] }
  | .countDrop seq type =>
      { shared := { dev with droppedFrameCount := dev.droppedFrameCount + 1 }
        next := [.incDropped, .trace (.frameDropped seq type)] }
  | .incDropped => { shared := dev.percpuIncDropped env.ctx.cpu }
  | .feed =>
      { shared := { dev with heartbeatCount := dev.heartbeatCount + 1, state := .hbOk }
        next := [.readTimeout] }
  | .readTimeout => { shared := dev, next := [.startTimer dev.hbTimeoutMs] }
  | .startTimer ms =>
      { shared := { dev with
          hbTimerArmed := true
          hbTimerExpires := env.ctx.armNs + ms.setWidth 64 * 1000000 } }
  | .pushTx frame seq type =>
      if frame.length = 0 ∨ frame.length > safetyMaxFrameSize then
        { shared := dev, next := [.ret (.error .emsgsize)] }
      else if dev.fifoDepth ≤ dev.txFifo.length then
        { shared := dev, next := [.countDrop seq type, .ret (.error .eagain)] }
      else
        { shared := dev.enqueueTx env.ctx frame seq
          next := [.traceTx seq type, .ret (.ok (.count frame.length))] }
  | .traceTx seq type =>
      { shared := dev
        out := [.seen (.traced (.frameReceived seq type (BitVec.ofNat 32 dev.txFifo.length)))] }
  | .pop count nonblock fault =>
      let (dev, slot) := dev.fifoPopFrame
      if slot.length = 0 then
        { shared := dev
          next := if nonblock then [.ret (.error .eagain)] else [.waitReadable count fault] }
      else if count < slot.length then { shared := dev, next := [.ret (.error .einval)] }
      else if fault then { shared := dev, next := [.ret (.error .efault)] }
      else { shared := dev, next := [.ret (.ok (.frame slot))] }
  | .waitReadable count fault =>
      { shared := dev
        next :=
          if 0 < dev.rxFifo.length then [.pop count false fault]
          else if env.signalled then [.ret (.error .erestartsys)]
          else [.waitReadable count fault] }
  | .pollRx =>
      if 0 < dev.rxFifo.length then
        { shared := dev
          next := [.trace (.pollWakeup (epollIn ||| epollRdNorm)),
            .pollTx (epollIn ||| epollRdNorm)] }
      else { shared := dev, next := [.pollTx 0] }
  | .pollTx mask =>
      { shared := dev
        next := [.ret (.ok (.mask (if 0 < dev.txFifo.length then mask ||| epollPri else mask)))] }
  | .copyStats fault =>
      { shared := dev
        next := [.sumCpu { dev.stats with rxFramesTotal := 0, rxQueueDepth := 0, txQueueDepth := 0 }
          {} 0 fault] }
  | .sumCpu st sum cpu fault =>
      { shared := dev
        next :=
          match dev.pcpu[cpu]? with
          | some p =>
              [.sumCpu st ⟨sum.rxFrames + p.rxFrames, sum.dropped + p.dropped, sum.bytes + p.bytes⟩
                (cpu + 1) fault]
          | none => [.rxDepth { st with rxFramesTotal := sum.rxFrames.setWidth 32 } fault] }
  | .rxDepth st fault =>
      { shared := dev
        next := [.txDepth { st with rxQueueDepth := BitVec.ofNat 32 dev.rxFifo.length } fault] }
  | .txDepth st fault =>
      { shared := dev
        next := [.ret (if fault then .error .efault
          else .ok (.stats { st with txQueueDepth := BitVec.ofNat 32 dev.txFifo.length }))] }
  | .resetLocked => { shared := dev.resetUnderLock, next := [.resetCpu 0] }
  | .resetCpu cpu =>
      if cpu < dev.pcpu.length then
        { shared := { dev with pcpu := dev.pcpu.set cpu {} }, next := [.resetCpu (cpu + 1)] }
      else { shared := dev }
  | .setTimeout ms => { shared := { dev with hbTimeoutMs := ms } }
  | .getState fault =>
      { shared := dev, next := [.ret (if fault then .error .efault else .ok (.state dev.state))] }
  | .inject faultType =>
      { shared := dev.injected env.ctx faultType
        next := [.takeSeq (.faultEvent (faultType.setWidth 8) 2 0 env.ctx.uptimeMs)] }
  | .takeSeq s =>
      match s.push dev.synthSeq env.ctx.nowMs with
      | (synthSeq, none) => { shared := { dev with synthSeq } }
      | (synthSeq, some frame) =>
          { shared := { dev with synthSeq }
            next := [.push frame dev.synthSeq s.type (synthEvent s) .driver]
            out := [.made dev.synthSeq] }
  | .fire =>
      if dev.hbTimerArmed then
        { shared := { dev with hbTimerArmed := false }, next := [.expire] }
      else { shared := dev }
  | .expire =>
      { shared := { dev with
            timeoutCount := dev.timeoutCount + 1
            state := .hbTimeout
            lastFaultType := safetyFaultTaskHang
            lastFaultDetail := 1
            lastFaultTsNs := env.ctx.faultNs
            faultCount := dev.faultCount + 1 }.timelineRecordLocked .timeout 0 env.ctx.recordNs
        next := [.trace (.timeoutDetected dev.hbTimeoutMs (dev.timeoutCount + 1)),
          .takeSeq (.faultEvent safetyFaultTaskHang 1 1 env.ctx.uptimeMs), .schedule] }
  | .schedule => { shared := dev.recoverySchedule }
  | .dequeue =>
      if dev.recoveryWorkQueued then
        { shared := { dev with recoveryWorkQueued := false }, next := [.recover] }
      else { shared := dev }
  | .recover =>
      { shared := { dev with
            retryCount := dev.retryCount + 1
            state := .recovering }.timelineRecordLocked .recovery 0 env.ctx.recordNs
        next := [.trace (.recoveryQueued (dev.retryCount + 1)),
          .takeSeq (.recoveryReport 1 SafetyLinkState.recovering.code env.ctx.uptimeMs)] }
  | .popTx fault =>
      let (dev, slot) := dev.fifoPopTxFrame
      { shared := dev
        next := [.ret (if slot.length = 0 then .error .eagain
          else if fault then .error .efault else .ok (.frame slot))] }
  | .ret result => { shared := dev, out := [.seen (.returned result)] }

/-- `queue_rx_from_linkd` up to its first section. -/
def queueRxSections (frame : List U8) : List Section :=
  if frame.length < safetyHeaderSize then [.ret (.error .einval)]
  else if frame.length > safetyMaxFrameSize then [.ret (.error .emsgsize)]
  else
    let hdr := SafetyFrameHeader.ofBytes frame
    if hdr.magic ≠ safetyProtoMagic then [.protoError .badMagic, .ret (.error .einval)]
    else if hdr.version ≠ safetyProtoVersion then [.protoError .badVersion, .ret (.error .einval)]
    else if hdr.payloadLength.toNat > safetyMaxPayload then
      [.protoError .badLength, .ret (.error .einval)]
    else if frame.length ≠ safetyHeaderSize + hdr.payloadLength.toNat then
      [.protoError .badLength, .ret (.error .einval)]
    else
      let vres := safetyFrameValidate frame
      let event := if hdr.type = safetyFrameHeartbeat then .heartbeat else .frameRx
      if vres ≠ .ok ∧ vres ≠ .badChecksum then [.protoError vres, .ret (.error .einval)]
      else
        (if vres = .badChecksum then [.protoError vres] else []) ++
          [.push frame hdr.sequenceId hdr.type event (.linkd vres)]

/-- `safety_write` up to its first section. -/
def writeSections (ubuf : List U8) (fault : Bool) : List Section :=
  if ubuf.length < safetyHeaderSize then [.ret (.error .einval)]
  else if ubuf.length > safetyMaxFrameSize then [.ret (.error .emsgsize)]
  else if fault then [.ret (.error .efault)]
  else
    let vres := safetyFrameValidate ubuf
    if vres ≠ .ok then [.protoError vres, .ret (.error .einval)]
    else
      let hdr := SafetyFrameHeader.ofBytes ubuf
      [.pushTx ubuf hdr.sequenceId hdr.type]

def ioctlSections : Ioctl → List Section
  | .getStats fault => [.copyStats fault]
  | .resetStats => [.resetLocked, .ret (.ok .done)]
  | .setHbTimeoutMs none => [.ret (.error .efault)]
  | .setHbTimeoutMs (some ms) =>
      if ms = 0 then [.ret (.error .einval)]
      else [.setTimeout ms, .readTimeout, .ret (.ok .done)]
  | .getState fault => [.getState fault]
  | .forceRecovery => [.schedule, .ret (.ok .done)]
  | .injectFault none => [.ret (.error .efault)]
  | .injectFault (some faultType) => [.inject faultType, .ret (.ok .done)]
  | .pushRxFrame none => [.ret (.error .efault)]
  | .pushRxFrame (some frame) =>
      if frame.length > safetyMaxFrameSize then [.ret (.error .emsgsize)]
      else queueRxSections frame
  | .popTxFrame fault => [.popTx fault]
  | .unknown => [.ret (.error .enotty)]

/-- What a call does up to its first section, and that section. -/
def sections : DevOp → List Section
  | .write ubuf fault => writeSections ubuf fault
  | .read count nonblock fault => [.pop count nonblock fault]
  | .poll => [.pollRx]
  | .ioctl cmd => ioctlSections cmd
  | .hbTimer => [.fire, .ret (.ok .done)]
  | .recoveryWork => [.dequeue, .ret (.ok .done)]

/-! ### A call that nothing interrupts -/

/-- The sections come to their end, with what is seen of them. -/
def Ran (ctx : Context) (dev : SafetyCoproDev) (call : List Section) (dev' : SafetyCoproDev)
    (events : List DevEvent) : Prop :=
  ∃ out, Interleave.Completes exec ⟨ctx, true⟩ dev call dev' out ∧
    out.filterMap SectionEvent.devEvent = events

section Alone
variable {ctx : Context} {dev dev' dev'' : SafetyCoproDev}

theorem ran_nil : Ran ctx dev [] dev [] := ⟨[], Interleave.completes_nil, rfl⟩

theorem ran_cons {a : Section} {rest : List Section} {events : List DevEvent}
    {e : Effect SafetyCoproDev Section SectionEvent} (he : exec a ⟨ctx, true⟩ dev = e)
    (h : Ran ctx e.shared (e.next ++ rest) dev' events) :
    Ran ctx dev (a :: rest) dev' (e.out.filterMap SectionEvent.devEvent ++ events) := by
  obtain ⟨out, hout, rfl⟩ := h
  subst he
  exact ⟨_, Interleave.completes_cons hout, List.filterMap_append⟩

/-- A section of which nothing is seen. -/
theorem ran_silent {a : Section} {next rest : List Section} {events : List DevEvent}
    (he : exec a ⟨ctx, true⟩ dev = { shared := dev', next })
    (h : Ran ctx dev' (next ++ rest) dev'' events) : Ran ctx dev (a :: rest) dev'' events :=
  ran_cons he h

theorem Ran.append {call rest : List Section} {events events' : List DevEvent}
    (h : Ran ctx dev call dev' events) (h' : Ran ctx dev' rest dev'' events') :
    Ran ctx dev (call ++ rest) dev'' (events ++ events') := by
  obtain ⟨out, hout, rfl⟩ := h
  obtain ⟨out', hout', rfl⟩ := h'
  exact ⟨_, hout.append hout', List.filterMap_append⟩

theorem ran_ret (result : Except Errno Reply) :
    Ran ctx dev [.ret result] dev [.returned result] := ran_cons rfl ran_nil

theorem ran_trace (e : TraceEvent) : Ran ctx dev [.trace e] dev [.traced e] :=
  ran_cons rfl ran_nil

theorem ran_readTimeout : Ran ctx dev [.readTimeout] (dev.timerRearm ctx) [] :=
  ran_cons rfl (ran_cons rfl ran_nil)

theorem ran_countDrop (seq : U16) (type : U8) :
    Ran ctx dev [.countDrop seq type] (dev.recordDrop ctx seq type).1
      [.traced (.frameDropped seq type)] :=
  ran_cons rfl (ran_cons rfl (ran_trace _))

section Push
variable {frame : List U8} (hpos : 0 < frame.length) (hmax : frame.length ≤ safetyMaxFrameSize)
variable (seq : U16) (type : U8) (event : SafetyTimelineEvent) (pusher : Pusher)
include hpos hmax

theorem exec_push_room (hroom : dev.rxFifo.length < dev.fifoDepth) (env : SectionEnv) :
    exec (.push frame seq type event pusher) env dev =
      { shared := dev.enqueueLocked env.ctx frame seq event
        next := .incRx frame.length ::
          .trace (.frameReceived seq type (BitVec.ofNat 32 (dev.rxFifo.length + 1))) ::
          pushedBy pusher type (.ok ())
        out := [.queued frame pusher] } := by
  have hlen : ¬ (frame.length = 0 ∨ frame.length > safetyMaxFrameSize) := by omega
  rw [exec, if_neg hlen, if_neg (Nat.not_le.mpr hroom)]

theorem exec_push_full (hfull : dev.fifoDepth ≤ dev.rxFifo.length) (env : SectionEnv) :
    exec (.push frame seq type event pusher) env dev =
      { shared := dev, next := .countDrop seq type :: pushedBy pusher type (.error .enospc) } := by
  have hlen : ¬ (frame.length = 0 ∨ frame.length > safetyMaxFrameSize) := by omega
  rw [exec, if_neg hlen, if_pos hfull]

/-- Behind the queue, a frame is counted for the CPU and traced. -/
theorem ran_push_room (hroom : dev.rxFifo.length < dev.fifoDepth) {events : List DevEvent}
    (h : Ran ctx (dev.enqueueRx ctx frame seq event) (pushedBy pusher type (.ok ())) dev' events) :
    Ran ctx dev [.push frame seq type event pusher] dev'
      (.traced (.frameReceived seq type (BitVec.ofNat 32 (dev.rxFifo.length + 1))) :: events) := by
  refine ran_cons (exec_push_room hpos hmax seq type event pusher hroom _) ?_
  rw [List.append_nil]
  exact ran_cons rfl (ran_cons rfl h)

theorem ran_push_full (hfull : dev.fifoDepth ≤ dev.rxFifo.length) {events : List DevEvent}
    (h : Ran ctx (dev.recordDrop ctx seq type).1 (pushedBy pusher type (.error .enospc)) dev'
      events) :
    Ran ctx dev [.push frame seq type event pusher] dev'
      (.traced (.frameDropped seq type) :: events) := by
  refine ran_cons (exec_push_full hpos hmax seq type event pusher hfull _) ?_
  rw [List.append_nil]
  exact (ran_countDrop seq type).append h

end Push

theorem exec_takeSeq (s : Synth) (env : SectionEnv) :
    exec (.takeSeq s) env dev =
      { shared := { dev with synthSeq := dev.synthSeq + 1 }
        next := [.push (dev.synthFrame env.ctx s) dev.synthSeq s.type (synthEvent s) .driver]
        out := [.made dev.synthSeq] } := by
  rw [exec, Synth.push_eq]
  rfl

theorem ran_takeSeq (s : Synth) :
    Ran ctx dev [.takeSeq s] (dev.offerSynth ctx s).1 ((dev.offerSynth ctx s).2.map .traced) := by
  obtain ⟨hpos, hmax⟩ := @synthFrame_length dev ctx s
  refine ran_cons (exec_takeSeq s ⟨ctx, true⟩) ?_
  by_cases hroom : dev.rxFifo.length < dev.fifoDepth
  · rw [offerSynth, if_pos hroom]
    exact @ran_push_room ctx { dev with synthSeq := dev.synthSeq + 1 } _ _ hpos hmax _ _ _ .driver
      hroom _ ran_nil
  · rw [offerSynth, if_neg hroom]
    exact @ran_push_full ctx { dev with synthSeq := dev.synthSeq + 1 } _ _ hpos hmax _ _ _ .driver
      (Nat.not_lt.mp hroom) _ ran_nil

/-! ### The calls -/

/-- The sum over the CPUs from the `cpu`-th on. -/
theorem ran_sumCpu {st : SafetyCoproStats} {sum : SafetyCoproPcpu} {cpu : Nat} {fault : Bool}
    {events : List DevEvent} {total : SafetyCoproPcpu}
    (htotal : total = (dev.pcpu.drop cpu).foldl (fun sum p =>
      ⟨sum.rxFrames + p.rxFrames, sum.dropped + p.dropped, sum.bytes + p.bytes⟩) sum)
    (h : Ran ctx dev [.rxDepth { st with rxFramesTotal := total.rxFrames.setWidth 32 } fault] dev'
      events) :
    Ran ctx dev [.sumCpu st sum cpu fault] dev' events := by
  induction hn : dev.pcpu.length - cpu generalizing sum cpu with
  | zero =>
      have hend : dev.pcpu.length ≤ cpu := by omega
      rw [List.drop_of_length_le hend] at htotal
      subst htotal
      have hexec : exec (.sumCpu st total cpu fault) ⟨ctx, true⟩ dev =
          { shared := dev
            next := [.rxDepth { st with rxFramesTotal := total.rxFrames.setWidth 32 } fault] } := by
        rw [exec, List.getElem?_eq_none hend]
      exact ran_silent hexec h
  | succ n ih =>
      have hlt : cpu < dev.pcpu.length := by omega
      rw [List.drop_eq_getElem_cons hlt] at htotal
      have hexec : exec (.sumCpu st sum cpu fault) ⟨ctx, true⟩ dev =
          { shared := dev
            next := [.sumCpu st ⟨sum.rxFrames + dev.pcpu[cpu].rxFrames,
              sum.dropped + dev.pcpu[cpu].dropped, sum.bytes + dev.pcpu[cpu].bytes⟩
                (cpu + 1) fault] } := by
        rw [exec, List.getElem?_eq_getElem hlt]
      exact ran_silent hexec (ih htotal (by omega))

theorem ran_stats (fault : Bool) :
    Ran ctx dev [.copyStats fault] dev
      [.returned (if fault then .error .efault else .ok (.stats dev.stats))] := by
  have hsum : dev.percpuSum = (dev.pcpu.drop 0).foldl (fun sum p =>
      ⟨sum.rxFrames + p.rxFrames, sum.dropped + p.dropped, sum.bytes + p.bytes⟩) {} := rfl
  exact ran_silent rfl (ran_sumCpu hsum (ran_silent rfl (ran_silent rfl (ran_ret _))))

theorem set_take_append {α : Type} {a : α} {l : List α} {i : Nat} (h : i < l.length) :
    (l.set i a).take (i + 1) ++ ((l.set i a).drop (i + 1)).map (fun _ => a) =
      l.take i ++ (l.drop i).map fun _ => a := by
  have hset : i < (l.set i a).length := by rwa [List.length_set]
  rw [List.take_succ_eq_append_getElem hset, List.take_set_of_le le_rfl, List.getElem_set_self,
    List.drop_set_of_lt (Nat.lt_succ_self i), List.append_assoc, List.drop_eq_getElem_cons h]
  rfl

theorem ran_resetCpu {cpu : Nat} (hcpu : cpu ≤ dev.pcpu.length) :
    Ran ctx dev [.resetCpu cpu]
      { dev with pcpu := dev.pcpu.take cpu ++ (dev.pcpu.drop cpu).map fun _ => {} } [] := by
  induction hn : dev.pcpu.length - cpu generalizing dev cpu with
  | zero =>
      have hend : cpu = dev.pcpu.length := by omega
      have hexec : exec (.resetCpu cpu) ⟨ctx, true⟩ dev = { shared := dev } := by
        rw [exec, if_neg (by omega)]
      rw [hend, List.take_length, List.drop_length, List.map_nil, List.append_nil, ← hend]
      exact ran_silent hexec ran_nil
  | succ n ih =>
      have hlt : cpu < dev.pcpu.length := by omega
      have hexec : exec (.resetCpu cpu) ⟨ctx, true⟩ dev =
          { shared := { dev with pcpu := dev.pcpu.set cpu {} }
            next := [.resetCpu (cpu + 1)] } := by
        rw [exec, if_pos hlt]
      have hset : (dev.pcpu.set cpu {}).length = dev.pcpu.length := List.length_set
      have hrest := @ih { dev with pcpu := dev.pcpu.set cpu {} } (cpu + 1)
        (by rw [hset]; omega) (by rw [hset]; omega)
      rw [← set_take_append hlt]
      exact ran_silent hexec hrest

theorem ran_reset : Ran ctx dev [.resetLocked] dev.iocResetStats [] :=
  ran_cons rfl (ran_resetCpu (Nat.zero_le _))

theorem ran_pushLinkd {frame : List U8} (hpos : 0 < frame.length)
    (hmax : frame.length ≤ safetyMaxFrameSize) (vres : SafetyValidateResult) :
    Ran ctx dev
      [.push frame (SafetyFrameHeader.ofBytes frame).sequenceId
        (SafetyFrameHeader.ofBytes frame).type
        (if (SafetyFrameHeader.ofBytes frame).type = safetyFrameHeartbeat then .heartbeat
          else .frameRx) (.linkd vres)]
      (dev.pushLinkdFrame ctx frame vres).dev
      ((dev.pushLinkdFrame ctx frame vres).trace.map .traced ++
        [.returned ((dev.pushLinkdFrame ctx frame vres).result.map fun _ => .done)]) := by
  rw [pushLinkdFrame]
  by_cases hroom : dev.rxFifo.length < dev.fifoDepth
  · simp only [fifoPushFrame_room ctx hpos hmax hroom]
    by_cases hbeat : vres = .ok ∧ (SafetyFrameHeader.ofBytes frame).type = safetyFrameHeartbeat
    · simp only [if_pos hbeat]
      refine ran_push_room hpos hmax _ _ _ (.linkd vres) hroom ?_
      rw [pushedBy, if_pos hbeat]
      exact ran_silent rfl (ran_readTimeout.append (ran_ret _))
    · simp only [if_neg hbeat]
      refine ran_push_room hpos hmax _ _ _ (.linkd vres) hroom ?_
      rw [pushedBy, if_neg hbeat]
      exact ran_ret _
  · have hfull := Nat.not_lt.mp hroom
    simp only [fifoPushFrame_full ctx hpos hmax hfull]
    exact ran_push_full hpos hmax _ _ _ (.linkd vres) hfull (ran_ret _)

theorem ran_queueRx (frame : List U8) :
    Ran ctx dev (queueRxSections frame) (dev.queueRxFromLinkd ctx frame).dev
      ((dev.queueRxFromLinkd ctx frame).trace.map .traced ++
        [.returned ((dev.queueRxFromLinkd ctx frame).result.map fun _ => .done)]) := by
  have hbad : ∀ vres, Ran ctx dev [.protoError vres, .ret (.error .einval)]
      (dev.recordProtoError vres) [.returned (.error .einval)] :=
    fun vres => ran_cons rfl (ran_ret _)
  simp only [queueRxSections, queueRxFromLinkd]
  split
  · exact ran_ret _
  split
  · exact ran_ret _
  split
  · exact hbad _
  split
  · exact hbad _
  split
  · exact hbad _
  split
  · exact hbad _
  split
  · exact hbad _
  rename_i hmin hmax _ _ _ _ _
  have hpos : 0 < frame.length := Nat.lt_of_lt_of_le (by decide) (Nat.not_lt.mp hmin)
  split
  · exact ran_silent rfl (ran_pushLinkd hpos (Nat.not_lt.mp hmax) _)
  · exact ran_pushLinkd hpos (Nat.not_lt.mp hmax) _

theorem ran_write (ubuf : List U8) (fault : Bool) :
    Ran ctx dev (writeSections ubuf fault) (dev.safetyWrite ctx ubuf fault).dev
      ((dev.safetyWrite ctx ubuf fault).trace.map .traced ++
        [.returned ((dev.safetyWrite ctx ubuf fault).result.map .count)]) := by
  simp only [writeSections, safetyWrite]
  split
  · exact ran_ret _
  split
  · exact ran_ret _
  split
  · exact ran_ret _
  split
  · exact ran_cons rfl (ran_ret _)
  rename_i hmin hmax _ _
  have hlen : ¬ (ubuf.length = 0 ∨ ubuf.length > safetyMaxFrameSize) := by
    have h16 : safetyHeaderSize = 16 := rfl
    omega
  have hexec (env : SectionEnv) := exec.eq_def
    (.pushTx ubuf (SafetyFrameHeader.ofBytes ubuf).sequenceId (SafetyFrameHeader.ofBytes ubuf).type)
    env dev
  simp only [if_neg hlen] at hexec
  by_cases hfull : dev.fifoDepth ≤ dev.txFifo.length
  · simp only [fifoPushTxFrame, if_neg hlen, if_pos hfull]
    simp only [if_pos hfull] at hexec
    exact ran_silent (hexec _) ((ran_countDrop _ _).append (ran_ret _))
  · simp only [fifoPushTxFrame, if_neg hlen, if_neg hfull]
    simp only [if_neg hfull] at hexec
    exact ran_silent (hexec _) (ran_cons rfl (ran_ret _))

theorem ran_read (hslots : ∀ slot ∈ dev.rxFifo, 0 < slot.length) (count : Nat)
    (nonblock fault : Bool) :
    Ran ctx dev [.pop count nonblock fault] (dev.safetyRead count nonblock fault).dev
      ((dev.safetyRead count nonblock fault).trace.map .traced ++
        [.returned ((dev.safetyRead count nonblock fault).result.map .frame)]) := by
  have hexec := exec.eq_def (.pop count nonblock fault) ⟨ctx, true⟩ dev
  simp only [safetyRead]
  by_cases hnone : dev.fifoPopFrame.2.length = 0
  · simp only [if_pos hnone] at hexec ⊢
    cases nonblock with
    | true => exact ran_silent hexec (ran_ret _)
    | false =>
        -- the queue is empty, so the wait ends with the signal
        have hempty : dev.fifoPopFrame.1.rxFifo = [] := by
          cases hrx : dev.rxFifo with
          | nil =>
              have hsame : dev.fifoPopFrame.1 = dev := by rw [fifoPopFrame, hrx]
              rw [hsame, hrx]
          | cons slot rest =>
              have hslot : dev.fifoPopFrame.2 = slot := by rw [fifoPopFrame, hrx]
              have hpos := hslots slot (hrx ▸ List.mem_cons_self)
              rw [hslot] at hnone
              exact absurd hnone hpos.ne'
        have hwait : exec (.waitReadable count fault) ⟨ctx, true⟩ dev.fifoPopFrame.1 =
            { shared := dev.fifoPopFrame.1, next := [.ret (.error .erestartsys)] } := by
          rw [exec, hempty]
          rfl
        exact ran_silent hexec (ran_silent hwait (ran_ret _))
  · simp only [if_neg hnone] at hexec ⊢
    by_cases hshort : count < dev.fifoPopFrame.2.length
    · simp only [if_pos hshort] at hexec ⊢
      exact ran_silent hexec (ran_ret _)
    · simp only [if_neg hshort] at hexec ⊢
      cases fault with
      | true => exact ran_silent hexec (ran_ret _)
      | false => exact ran_silent hexec (ran_ret _)

theorem ran_poll :
    Ran ctx dev [.pollRx] dev (dev.safetyPoll.trace.map .traced ++
      [.returned (dev.safetyPoll.result.map .mask)]) := by
  rw [safetyPoll]
  by_cases hready : 0 < dev.rxFifo.length
  · have hexec : exec .pollRx ⟨ctx, true⟩ dev =
        { shared := dev
          next := [.trace (.pollWakeup (epollIn ||| epollRdNorm)),
            .pollTx (epollIn ||| epollRdNorm)] } := if_pos hready
    simp only [if_pos hready]
    exact ran_silent hexec ((ran_trace _).append (ran_silent rfl (ran_ret _)))
  · have hexec : exec .pollRx ⟨ctx, true⟩ dev = { shared := dev, next := [.pollTx 0] } :=
      if_neg hready
    simp only [if_neg hready]
    exact ran_silent hexec (ran_silent rfl (ran_ret _))

theorem ran_ioctl (cmd : Ioctl) :
    Ran ctx dev (ioctlSections cmd) (dev.safetyIoctl ctx cmd).dev
      ((dev.safetyIoctl ctx cmd).trace.map .traced ++
        [.returned (dev.safetyIoctl ctx cmd).result]) := by
  cases cmd with
  | getStats fault => exact ran_stats fault
  | resetStats => exact ran_reset.append (ran_ret _)
  | setHbTimeoutMs ms =>
      cases ms with
      | none => exact ran_ret _
      | some ms =>
          rw [ioctlSections, safetyIoctl]
          split
          · exact ran_ret _
          · exact ran_cons rfl (ran_readTimeout.append (ran_ret _))
  | getState fault => exact ran_cons rfl (ran_ret _)
  | forceRecovery => exact ran_cons rfl (ran_ret _)
  | injectFault faultType =>
      cases faultType with
      | none => exact ran_ret _
      | some faultType =>
          obtain ⟨hdev, htrace⟩ := @iocInjectFault_eq dev ctx faultType
          rw [safetyIoctl, reply_dev, reply_trace, hdev, htrace]
          exact ran_cons rfl ((ran_takeSeq _).append (ran_ret _))
  | pushRxFrame io =>
      cases io with
      | none => exact ran_ret _
      | some frame =>
          rw [ioctlSections, safetyIoctl]
          split
          · exact ran_ret _
          · exact ran_queueRx frame
  | popTxFrame fault =>
      have hexec := exec.eq_def (.popTx fault) ⟨ctx, true⟩ dev
      simp only [ioctlSections, safetyIoctl]
      by_cases hnone : dev.fifoPopTxFrame.2.length = 0
      · simp only [if_pos hnone] at hexec ⊢
        exact ran_silent hexec (ran_ret _)
      · simp only [if_neg hnone] at hexec ⊢
        cases fault with
        | true => exact ran_silent hexec (ran_ret _)
        | false => exact ran_silent hexec (ran_ret _)
  | unknown => exact ran_ret _

theorem ran_fire :
    Ran ctx dev [.fire, .ret (.ok .done)] (dev.step (.hbTimer, ctx)).1
      (dev.step (.hbTimer, ctx)).2 := by
  rw [step, call]
  by_cases harmed : dev.hbTimerArmed = true
  · have hexec : exec .fire ⟨ctx, true⟩ dev =
        { shared := { dev with hbTimerArmed := false }, next := [.expire] } := if_pos harmed
    obtain ⟨hdev, htrace⟩ := @hbTimerFn_eq dev ctx
    simp only [if_pos harmed]
    rw [reply_dev, reply_trace, hdev, htrace]
    have hsynth := @ran_takeSeq ctx (dev.expired ctx) (timeoutFault ctx)
    have hend : Ran ctx ((dev.expired ctx).offerSynth ctx (timeoutFault ctx)).1
        [.schedule, .ret (.ok .done)] _ [.returned (.ok .done)] := ran_silent rfl (ran_ret _)
    exact ran_silent hexec (ran_silent rfl ((ran_trace _).append (hsynth.append hend)))
  · have hexec : exec .fire ⟨ctx, true⟩ dev = { shared := dev } := if_neg harmed
    simp only [if_neg harmed]
    exact ran_silent hexec (ran_ret _)

theorem ran_dequeue :
    Ran ctx dev [.dequeue, .ret (.ok .done)] (dev.step (.recoveryWork, ctx)).1
      (dev.step (.recoveryWork, ctx)).2 := by
  rw [step, call]
  by_cases hqueued : dev.recoveryWorkQueued = true
  · have hexec : exec .dequeue ⟨ctx, true⟩ dev =
        { shared := { dev with recoveryWorkQueued := false }, next := [.recover] } :=
      if_pos hqueued
    obtain ⟨hdev, htrace⟩ := @recoveryWorkFn_eq dev ctx
    simp only [if_pos hqueued]
    rw [reply_dev, reply_trace, hdev, htrace]
    have hsynth := @ran_takeSeq ctx (dev.recovering ctx) (recoveryNotice ctx)
    exact ran_silent hexec (ran_silent rfl ((ran_trace _).append (hsynth.append (ran_ret _))))
  · have hexec : exec .dequeue ⟨ctx, true⟩ dev = { shared := dev } := if_neg hqueued
    simp only [if_neg hqueued]
    exact ran_silent hexec (ran_ret _)

/-- The sections of a call, with nothing in between, are the call. -/
theorem ran_sections (hslots : ∀ slot ∈ dev.rxFifo, 0 < slot.length) (op : DevOp) :
    Ran ctx dev (sections op) (dev.step (op, ctx)).1 (dev.step (op, ctx)).2 := by
  cases op with
  | write ubuf fault => exact ran_write ubuf fault
  | read count nonblock fault => exact ran_read hslots count nonblock fault
  | poll => exact ran_poll
  | ioctl cmd => exact ran_ioctl cmd
  | hbTimer => exact ran_fire
  | recoveryWork => exact ran_dequeue

end Alone

/-- The frames of the RX queue are never empty. -/
theorem RxQueueable.slots {dev : SafetyCoproDev} (h : dev.RxQueueable) :
    ∀ slot ∈ dev.rxFifo, 0 < slot.length := by
  intro slot hslot
  exact Nat.lt_of_lt_of_le (by decide) (h slot hslot).1.length_le.1

/-- The calls that begin are calls on the device. -/
def Started : Move SectionEnv Section → Prop :=
  Allowed (fun call => ∃ op, call = sections op) fun _ => True

/-- The calls, each with the number of sections it takes, one after the other. -/
def serially (turns : List ((DevOp × Context) × Nat)) : List (Move SectionEnv Section) :=
  Interleave.serial (fun input => sections input.1) (fun input => ⟨input.2, true⟩) 0 turns

theorem serially_started (turns : List ((DevOp × Context) × Nat)) :
    ∀ m ∈ serially turns, Started m :=
  Interleave.serial_allowed (fun turn _ => ⟨turn.1.1, rfl⟩) (fun _ _ => trivial) 0

/-- The calls as single steps are those of the sections, one after the other: the
same device, the same trace and the same results. -/
theorem serial_calls {hbTimeoutMs : U32} {fifoDepth cpus : Nat} {dev : SafetyCoproDev}
    (hinit : safetyCoproInit hbTimeoutMs fifoDepth cpus = some dev)
    (inputs : List (DevOp × Context)) :
    ∃ turns, turns.map Prod.fst = inputs ∧
      (∀ m ∈ serially turns, Started m) ∧
      (serially turns).filterMap Move.begun = inputs.map (fun input => sections input.1) ∧
      (Machine.after (Interleave.step exec) { shared := dev } (serially turns)).shared =
        Machine.after step dev inputs ∧
      (Machine.after (Interleave.step exec) { shared := dev } (serially turns)).pending = 0 ∧
      (Machine.outputs (Interleave.step exec) { shared := dev } (serially turns)).filterMap
        SectionEvent.devEvent = Machine.outputs step dev inputs := by
  have hslots : dev.RxQueueable := by
    rw [RxQueueable, (init_fifos hinit).1]
    exact List.forall_mem_nil _
  obtain ⟨turns, hinputs, hruns⟩ := @Interleave.exists_serial SafetyCoproDev SectionEnv Section
    SectionEvent (DevOp × Context) (fun input => sections input.1) (fun input => ⟨input.2, true⟩)
    DevEvent exec step SectionEvent.devEvent RxQueueable
    (fun dev input hdev => call_rxQueueable hdev input.2 input.1)
    (fun dev input hdev => ran_sections hdev.slots input.1) { shared := dev } hslots inputs
  refine ⟨turns, hinputs, serially_started turns, ?_, hruns⟩
  rw [serially, Interleave.serial_begun, ← hinputs, List.map_map]
  rfl

theorem serial_calls_two_frames :
    ∃ dev turns, safetyCoproInit 0 0 2 = some dev ∧ turns.map Prod.fst = countedInputs ∧
      (∀ m ∈ serially turns, Started m) ∧
      (serially turns).filterMap Move.begun = countedInputs.map (fun input => sections input.1) ∧
      (Machine.after (Interleave.step exec) { shared := dev } (serially turns)).shared =
        Machine.after step dev countedInputs ∧
      (Machine.after (Interleave.step exec) { shared := dev } (serially turns)).pending = 0 ∧
      (Machine.outputs (Interleave.step exec) { shared := dev } (serially turns)).filterMap
        SectionEvent.devEvent = Machine.outputs step dev countedInputs := by
  obtain ⟨dev, hdev⟩ : ∃ dev, safetyCoproInit 0 0 2 = some dev := ⟨_, rfl⟩
  obtain ⟨turns, hturns⟩ := serial_calls hdev countedInputs
  exact ⟨dev, turns, hdev, hturns⟩

end SafetyCoproDev

end SafetyCopro
