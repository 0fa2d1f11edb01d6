import SafetyCopro.Driver.Chrdev
import SafetyCopro.Protocol.Framing
import SafetyCopro.Protocol.Validate

/-!
What the calls do to the two queues. Seen from there the device is a pair of
bounded queues of frames, and every call puts at most one frame into one of
them or takes one out.
-/

namespace SafetyCopro

/-- The queues of the device and the bound both have. -/
structure Queues where
  rx : List (List U8)
  tx : List (List U8)
  depth : Nat
deriving DecidableEq, Repr

inductive QueueOp
  | keep
  | pushRx (frame : List U8)
  | popRx
  | pushTx (frame : List U8)
  | popTx
deriving DecidableEq, Repr

/-- A full queue refuses the frame. -/
def Queues.apply (q : Queues) : QueueOp → Queues
  | .keep => q
  | .pushRx frame => if q.rx.length < q.depth then { q with rx := q.rx ++ [frame] } else q
  | .popRx => { q with rx := q.rx.tail }
  | .pushTx frame => if q.tx.length < q.depth then { q with tx := q.tx ++ [frame] } else q
  | .popTx => { q with tx := q.tx.tail }

namespace Queues
variable {q : Queues} (frame : List U8)

@[simp] theorem apply_keep : q.apply .keep = q := rfl

theorem apply_pushRx (h : q.rx.length < q.depth) :
    q.apply (.pushRx frame) = { q with rx := q.rx ++ [frame] } := if_pos h

theorem apply_pushRx_full (h : q.depth ≤ q.rx.length) : q.apply (.pushRx frame) = q :=
  if_neg (Nat.not_lt.mpr h)

theorem apply_pushRx_tx : (q.apply (.pushRx frame)).tx = q.tx := by
  rw [apply]
  split <;> rfl

theorem apply_pushTx_rx : (q.apply (.pushTx frame)).rx = q.rx := by
  rw [apply]
  split <;> rfl

theorem apply_pushTx (h : q.tx.length < q.depth) :
    q.apply (.pushTx frame) = { q with tx := q.tx ++ [frame] } := if_pos h

theorem apply_pushTx_full (h : q.depth ≤ q.tx.length) : q.apply (.pushTx frame) = q :=
  if_neg (Nat.not_lt.mpr h)

end Queues

/-- A frame `queue_rx_from_linkd` offers to the queue. -/
def Queueable (frame : List U8) : Prop :=
  IsFrame frame ∧ (SafetyFrameHeader.ofBytes frame).version = safetyProtoVersion

instance (frame : List U8) : Decidable (Queueable frame) := inferInstanceAs (Decidable (_ ∧ _))

theorem queueable_packFrame (type : U8) (seq : U16) (tsMs : U32) {payload : List U8}
    (h : payload.length ≤ safetyMaxPayload) : Queueable (packFrame type seq tsMs payload) := by
  have hhdr : SafetyFrameHeader.ofBytes (packFrame type seq tsMs payload) =
      sealedHeader type seq tsMs payload := ofBytes_toBytes_append _ _
  exact ⟨isFrame_packFrame type seq tsMs h, congrArg SafetyFrameHeader.version hhdr⟩

namespace SafetyCoproDev

def queues (dev : SafetyCoproDev) : Queues := ⟨dev.rxFifo, dev.txFifo, dev.fifoDepth⟩

/-- The frame the driver makes next. -/
def synthFrame (dev : SafetyCoproDev) (ctx : Context) (s : Synth) : List U8 :=
  packFrame s.type dev.synthSeq ctx.nowMs s.payload

def ioctlQueueOp (dev : SafetyCoproDev) (ctx : Context) : Ioctl → QueueOp
  | .injectFault (some faultType) =>
      .pushRx (dev.synthFrame ctx (.faultEvent (faultType.setWidth 8) 2 0 ctx.uptimeMs))
  | .injectFault none => .keep
  | .pushRxFrame (some frame) => if Queueable frame then .pushRx frame else .keep
  | .pushRxFrame none => .keep
  | .popTxFrame _ => .popTx
  | .getStats _ | .resetStats | .setHbTimeoutMs _ | .getState _ | .forceRecovery | .unknown => .keep

/-- What a call does to the queues. -/
def queueOp (dev : SafetyCoproDev) (ctx : Context) : DevOp → QueueOp
  | .write ubuf fault =>
      if ¬ fault ∧ ubuf.length ≤ safetyMaxFrameSize ∧ safetyFrameValidate ubuf = .ok then
        .pushTx ubuf
      else .keep
  | .read .. => .popRx
  | .poll => .keep
  | .ioctl cmd => dev.ioctlQueueOp ctx cmd
  | .hbTimer =>
      if dev.hbTimerArmed then
        .pushRx (dev.synthFrame ctx (.faultEvent safetyFaultTaskHang 1 1 ctx.uptimeMs))
      else .keep
  | .recoveryWork =>
      if dev.recoveryWorkQueued then
        .pushRx (dev.synthFrame ctx
          (.recoveryReport 1 SafetyLinkState.recovering.code ctx.uptimeMs))
      else .keep

/-- Everything a call can do to the queues. -/
inductive QueueEffect (dev : SafetyCoproDev) (ctx : Context) : DevOp → QueueOp → Prop
  | written {slot : List U8} (hmax : slot.length ≤ safetyMaxFrameSize)
      (hvalid : safetyFrameValidate slot = .ok) :
      QueueEffect dev ctx (.write slot false) (.pushTx slot)
  | popped (fault : Bool) : QueueEffect dev ctx (.ioctl (.popTxFrame fault)) .popTx
  | read (count : Nat) (nonblock fault : Bool) :
      QueueEffect dev ctx (.read count nonblock fault) .popRx
  | pushed {frame : List U8} (h : Queueable frame) :
      QueueEffect dev ctx (.ioctl (.pushRxFrame (some frame))) (.pushRx frame)
  | made (op : DevOp) (s : Synth) : QueueEffect dev ctx op (.pushRx (dev.synthFrame ctx s))
  | kept (op : DevOp) : QueueEffect dev ctx op .keep

theorem queueOp_effect (dev : SafetyCoproDev) (ctx : Context) (op : DevOp) :
    QueueEffect dev ctx op (dev.queueOp ctx op) := by
  cases op with
  | write ubuf fault =>
      rw [queueOp]
      split
      · rename_i hok
        obtain rfl := Bool.eq_false_iff.mpr hok.1
        exact .written hok.2.1 hok.2.2
      · exact .kept _
  | read count nonblock fault => exact .read count nonblock fault
  | poll => exact .kept _
  | ioctl cmd =>
      cases cmd with
      | injectFault faultType =>
          cases faultType with
          | none => exact .kept _
          | some faultType => exact .made _ _
      | pushRxFrame io =>
          cases io with
          | none => exact .kept _
          | some frame =>
              rw [queueOp, ioctlQueueOp]
              split
              · exact .pushed ‹_›
              · exact .kept _
      | popTxFrame fault => exact .popped fault
      | _ => exact .kept _
  | hbTimer =>
      rw [queueOp]
      split
      · exact .made _ _
      · exact .kept _
  | recoveryWork =>
      rw [queueOp]
      split
      · exact .made _ _
      · exact .kept _

theorem init_fifos {dev : SafetyCoproDev} {hbTimeoutMs : U32} {fifoDepth cpus : Nat}
    (h : safetyCoproInit hbTimeoutMs fifoDepth cpus = some dev) :
    dev.rxFifo = [] ∧ dev.txFifo = [] := by
  dsimp only [safetyCoproInit] at h
  generalize roundupPowOfTwo _ = depth at h
  split at h
  · cases h
  · obtain rfl := Option.some.inj h
    exact ⟨rfl, rfl⟩

/-! ### The helpers -/

variable (dev : SafetyCoproDev) (ctx : Context)

@[simp] theorem timelineRecordLocked_queues (event : SafetyTimelineEvent) (seq : U16) (ts : U64) :
    (dev.timelineRecordLocked event seq ts).queues = dev.queues := rfl

@[simp] theorem recordDrop_queues (seq : U16) (type : U8) :
    (dev.recordDrop ctx seq type).1.queues = dev.queues := rfl

@[simp] theorem recordProtoError_queues (vres : SafetyValidateResult) :
    (dev.recordProtoError vres).queues = dev.queues := by
  cases vres <;> rfl

@[simp] theorem recoverySchedule_queues : dev.recoverySchedule.queues = dev.queues := rfl

variable {dev}

/-- A push of a frame of a proper length. -/
theorem fifoPushFrame_eq {frame : List U8} (hpos : 0 < frame.length)
    (hmax : frame.length ≤ safetyMaxFrameSize) (seq : U16) (type : U8)
    (event : SafetyTimelineEvent) :
    (dev.fifoPushFrame ctx frame seq type event).dev.queues = dev.queues.apply (.pushRx frame) ∧
      (dev.fifoPushFrame ctx frame seq type event).result =
        if dev.rxFifo.length < dev.fifoDepth then .ok () else .error .enospc := by
  have hlen : ¬ (frame.length = 0 ∨ frame.length > safetyMaxFrameSize) := by omega
  rw [fifoPushFrame, if_neg hlen]
  by_cases hfull : dev.fifoDepth ≤ dev.rxFifo.length
  · rw [if_pos hfull, if_neg (Nat.not_lt.mpr hfull)]
    exact ⟨(Queues.apply_pushRx_full frame hfull).symm, rfl⟩
  · have hroom : dev.queues.rx.length < dev.queues.depth := Nat.lt_of_not_le hfull
    rw [if_neg hfull, if_pos (Nat.lt_of_not_le hfull), Queues.apply_pushRx frame hroom]
    exact ⟨rfl, rfl⟩

theorem fifoPushTxFrame_eq {frame : List U8} (hpos : 0 < frame.length)
    (hmax : frame.length ≤ safetyMaxFrameSize) (seq : U16) (type : U8) :
    (dev.fifoPushTxFrame ctx frame seq type).dev.queues = dev.queues.apply (.pushTx frame) ∧
      (dev.fifoPushTxFrame ctx frame seq type).result =
        if dev.txFifo.length < dev.fifoDepth then .ok () else .error .enospc := by
  have hlen : ¬ (frame.length = 0 ∨ frame.length > safetyMaxFrameSize) := by omega
  rw [fifoPushTxFrame, if_neg hlen]
  by_cases hfull : dev.fifoDepth ≤ dev.txFifo.length
  · rw [if_pos hfull, if_neg (Nat.not_lt.mpr hfull)]
    exact ⟨(Queues.apply_pushTx_full frame hfull).symm, rfl⟩
  · have hroom : dev.queues.tx.length < dev.queues.depth := Nat.lt_of_not_le hfull
    rw [if_neg hfull, if_pos (Nat.lt_of_not_le hfull), Queues.apply_pushTx frame hroom]
    exact ⟨rfl, rfl⟩

theorem synthFrame_length (s : Synth) :
    0 < (dev.synthFrame ctx s).length ∧ (dev.synthFrame ctx s).length ≤ safetyMaxFrameSize := by
  have h16 : safetyHeaderSize = 16 := rfl
  have h272 : safetyMaxFrameSize = 272 := rfl
  have hlen := s.payload_fits
  have h256 : safetyMaxPayload = 256 := rfl
  rw [synthFrame, packFrame, List.length_append, toBytes_length]
  omega

theorem synthAndPush_queues (s : Synth) :
    (dev.synthAndPush ctx s).dev.queues =
      dev.queues.apply (.pushRx (dev.synthFrame ctx s)) := by
  obtain ⟨hpos, hmax⟩ := @synthFrame_length dev ctx s
  obtain ⟨hqueues, hresult⟩ := @fifoPushFrame_eq { dev with synthSeq := dev.synthSeq + 1 } ctx
    (dev.synthFrame ctx s) hpos hmax dev.synthSeq s.type (synthEvent s)
  rw [synthFrame] at hqueues hresult
  rw [synthAndPush, Synth.push_eq]
  simp only [hresult]
  by_cases hfull : dev.rxFifo.length < dev.fifoDepth
  · rw [if_pos hfull]
    exact hqueues
  · rw [if_neg hfull]
    simp only [recordDrop_queues]
    exact hqueues

/-! ### The calls -/

theorem safetyFrameValidate_queueable {frame : List U8} (h : Queueable frame) :
    safetyFrameValidate frame = .ok ∨ safetyFrameValidate frame = .badChecksum := by
  rw [safetyFrameValidate_isFrame h.1, if_neg (not_not_intro h.2)]
  split
  · exact Or.inr rfl
  · exact Or.inl rfl

theorem pushLinkdFrame_eq {frame : List U8} (h : IsFrame frame) (vres : SafetyValidateResult) :
    (dev.pushLinkdFrame ctx frame vres).dev.queues = dev.queues.apply (.pushRx frame) ∧
      (dev.pushLinkdFrame ctx frame vres).result =
        if dev.rxFifo.length < dev.fifoDepth then .ok () else .error .enospc := by
  obtain ⟨hmin, hmax⟩ := h.length_le
  have hpos : 0 < frame.length := Nat.lt_of_lt_of_le (by decide) hmin
  obtain ⟨hqueues, hresult⟩ := @fifoPushFrame_eq dev ctx frame hpos hmax
    (SafetyFrameHeader.ofBytes frame).sequenceId (SafetyFrameHeader.ofBytes frame).type
    (if (SafetyFrameHeader.ofBytes frame).type = safetyFrameHeartbeat then .heartbeat else .frameRx)
  simp only [pushLinkdFrame]
  generalize dev.fifoPushFrame ctx frame _ _ _ = pushed at hqueues hresult ⊢
  by_cases hroom : dev.rxFifo.length < dev.fifoDepth
  · rw [if_pos hroom] at hresult ⊢
    simp only [hresult]
    split
    · exact ⟨hqueues, rfl⟩
    · exact ⟨hqueues, hresult⟩
  · rw [if_neg hroom] at hresult ⊢
    simp only [hresult, and_true]
    exact hqueues

theorem queueRxFromLinkd_eq {frame : List U8} (h : Queueable frame) :
    dev.queueRxFromLinkd ctx frame =
      (if safetyFrameValidate frame = .badChecksum then
        dev.recordProtoError (safetyFrameValidate frame)
      else dev).pushLinkdFrame ctx frame (safetyFrameValidate frame) := by
  obtain ⟨hmin, hmax⟩ := h.1.length_le
  have hmagic : (SafetyFrameHeader.ofBytes frame).magic = safetyProtoMagic := h.1.1
  have hfits : ¬ (SafetyFrameHeader.ofBytes frame).payloadLength.toNat > safetyMaxPayload :=
    Nat.not_lt.mpr h.1.2.1
  have hlen : frame.length =
      safetyHeaderSize + (SafetyFrameHeader.ofBytes frame).payloadLength.toNat := h.1.2.2
  have hvres : ¬ (safetyFrameValidate frame ≠ .ok ∧ safetyFrameValidate frame ≠ .badChecksum) := by
    rintro ⟨hok, hsum⟩
    exact (safetyFrameValidate_queueable h).elim hok hsum
  rw [queueRxFromLinkd, if_neg (Nat.not_lt.mpr hmin), if_neg (Nat.not_lt.mpr hmax)]
  simp only [if_neg (not_not_intro hmagic), if_neg (not_not_intro h.2), if_neg hfits,
    if_neg (not_not_intro hlen), if_neg hvres]

/-- A frame that passes the checks is offered to the queue, with or without a
right checksum. -/
theorem queueRxFromLinkd_queueable {frame : List U8} (h : Queueable frame) :
    (dev.queueRxFromLinkd ctx frame).dev.queues = dev.queues.apply (.pushRx frame) ∧
      (dev.queueRxFromLinkd ctx frame).result =
        if dev.rxFifo.length < dev.fifoDepth then .ok () else .error .enospc := by
  rw [queueRxFromLinkd_eq ctx h]
  split
  · have hkeep := dev.recordProtoError_queues (safetyFrameValidate frame)
    have hpushed := @pushLinkdFrame_eq (dev.recordProtoError (safetyFrameValidate frame)) ctx frame
      h.1 (safetyFrameValidate frame)
    have hrx : (dev.recordProtoError (safetyFrameValidate frame)).rxFifo = dev.rxFifo :=
      congrArg Queues.rx hkeep
    have hdepth : (dev.recordProtoError (safetyFrameValidate frame)).fifoDepth = dev.fifoDepth :=
      congrArg Queues.depth hkeep
    rwa [hkeep, hrx, hdepth] at hpushed
  · exact pushLinkdFrame_eq ctx h.1 (safetyFrameValidate frame)

/-- Any other buffer is refused before it comes to the queue. -/
theorem queueRxFromLinkd_refused {frame : List U8} (h : ¬ Queueable frame) :
    (dev.queueRxFromLinkd ctx frame).dev.queues = dev.queues := by
  simp only [queueRxFromLinkd]
  split
  · rfl
  split
  · rfl
  split
  · exact recordProtoError_queues _ _
  split
  · exact recordProtoError_queues _ _
  split
  · exact recordProtoError_queues _ _
  split
  · exact recordProtoError_queues _ _
  split
  · exact recordProtoError_queues _ _
  rename_i hmagic hversion hfits hlen _
  exact absurd ⟨⟨Decidable.not_not.mp hmagic, Nat.not_lt.mp hfits, Decidable.not_not.mp hlen⟩,
    Decidable.not_not.mp hversion⟩ h

/-- A buffer that starts with a frame is offered to the TX queue. -/
theorem safetyWrite_valid {ubuf : List U8} (hmax : ubuf.length ≤ safetyMaxFrameSize)
    (hvalid : safetyFrameValidate ubuf = .ok) :
    (dev.safetyWrite ctx ubuf false).dev.queues = dev.queues.apply (.pushTx ubuf) ∧
      (dev.safetyWrite ctx ubuf false).result =
        if dev.txFifo.length < dev.fifoDepth then .ok ubuf.length else .error .eagain := by
  have hmin := (safetyFrameValidate_ok_iff.mp hvalid).header
  have hpos : 0 < ubuf.length := Nat.lt_of_lt_of_le (by decide) hmin
  obtain ⟨hqueues, hresult⟩ := @fifoPushTxFrame_eq dev ctx ubuf hpos hmax
    (SafetyFrameHeader.ofBytes ubuf).sequenceId (SafetyFrameHeader.ofBytes ubuf).type
  rw [← hqueues, safetyWrite, if_neg (Nat.not_lt.mpr hmin), if_neg (Nat.not_lt.mpr hmax),
    if_neg Bool.false_ne_true]
  simp only [if_neg (not_not_intro hvalid)]
  generalize dev.fifoPushTxFrame ctx ubuf _ _ = pushed at hresult ⊢
  by_cases hroom : dev.txFifo.length < dev.fifoDepth
  · rw [if_pos hroom] at hresult ⊢
    simp only [hresult, and_self]
  · rw [if_neg hroom] at hresult ⊢
    simp only [hresult, recordDrop_queues, and_self]

theorem safetyWrite_queues (ubuf : List U8) (fault : Bool) :
    (dev.safetyWrite ctx ubuf fault).dev.queues =
      dev.queues.apply (dev.queueOp ctx (.write ubuf fault)) := by
  rw [queueOp]
  by_cases hok : ¬ fault ∧ ubuf.length ≤ safetyMaxFrameSize ∧ safetyFrameValidate ubuf = .ok
  · obtain ⟨hfault, hmax, hvalid⟩ := hok
    obtain rfl := Bool.eq_false_iff.mpr hfault
    rw [if_pos ⟨hfault, hmax, hvalid⟩, (safetyWrite_valid ctx hmax hvalid).1]
  · rw [if_neg hok, Queues.apply_keep, safetyWrite]
    split
    · rfl
    split
    · rfl
    rename_i hmax
    split
    · rfl
    rename_i hfault
    simp only [if_pos fun hvalid => hok ⟨hfault, Nat.not_lt.mp hmax, hvalid⟩,
      recordProtoError_queues]

theorem fifoPopFrame_queues : dev.fifoPopFrame.1.queues = dev.queues.apply .popRx := by
  unfold fifoPopFrame Queues.apply queues
  split <;> simp_all

theorem fifoPopTxFrame_queues : dev.fifoPopTxFrame.1.queues = dev.queues.apply .popTx := by
  unfold fifoPopTxFrame Queues.apply queues
  split <;> simp_all

theorem safetyRead_queues (count : Nat) (nonblock fault : Bool) :
    (dev.safetyRead count nonblock fault).dev.queues = dev.queues.apply .popRx := by
  rw [← fifoPopFrame_queues]
  simp only [safetyRead]
  split
  · rfl
  split
  · rfl
  split <;> rfl

theorem safetyRead_empty (h : dev.rxFifo = []) (count : Nat) (nonblock fault : Bool) :
    dev.safetyRead count nonblock fault =
      { dev, result := .error (if nonblock then .eagain else .erestartsys) } := by
  simp [safetyRead, fifoPopFrame, h]

/-- The first slot is taken out before the call looks at the buffer. -/
theorem safetyRead_slot {slot : List U8} {rest : List (List U8)} (h : dev.rxFifo = slot :: rest)
    (hslot : 0 < slot.length) (count : Nat) (nonblock fault : Bool) :
    dev.safetyRead count nonblock fault =
      { dev := { dev with rxFifo := rest }
        result := if count < slot.length then .error .einval
          else if fault then .error .efault else .ok slot } := by
  rw [safetyRead, fifoPopFrame, h]
  simp only [if_neg (Nat.ne_of_gt hslot)]
  split
  · rfl
  split <;> rfl

@[simp] theorem reply_dev {α : Type} (o : Outcome α) (reply : α → Reply) :
    (o.reply reply).dev = o.dev := rfl

theorem iocInjectFault_queues (faultType : U32) :
    (dev.iocInjectFault ctx faultType).dev.queues =
      dev.queues.apply (.pushRx
        (dev.synthFrame ctx (.faultEvent (faultType.setWidth 8) 2 0 ctx.uptimeMs))) := by
  simp only [iocInjectFault, synthAndPush_queues]
  rfl

theorem hbTimerFn_queues :
    (dev.hbTimerFn ctx).dev.queues =
      dev.queues.apply (.pushRx
        (dev.synthFrame ctx (.faultEvent safetyFaultTaskHang 1 1 ctx.uptimeMs))) := by
  simp only [hbTimerFn, recoverySchedule_queues, synthAndPush_queues, timelineRecordLocked_queues]
  rfl

theorem recoveryWorkFn_queues :
    (dev.recoveryWorkFn ctx).dev.queues =
      dev.queues.apply (.pushRx (dev.synthFrame ctx
        (.recoveryReport 1 SafetyLinkState.recovering.code ctx.uptimeMs))) := by
  simp only [recoveryWorkFn, synthAndPush_queues, timelineRecordLocked_queues]
  rfl

theorem safetyIoctl_queues (cmd : Ioctl) :
    (dev.safetyIoctl ctx cmd).dev.queues = dev.queues.apply (dev.ioctlQueueOp ctx cmd) := by
  cases cmd with
  | getStats fault => rfl
  | resetStats => rfl
  | setHbTimeoutMs ms =>
      cases ms with
      | none => rfl
      | some ms =>
          rw [safetyIoctl]
          split <;> rfl
  | getState fault => rfl
  | forceRecovery => rfl
  | injectFault faultType =>
      cases faultType with
      | none => rfl
      | some faultType =>
          rw [safetyIoctl, ioctlQueueOp, reply_dev, iocInjectFault_queues]
  | pushRxFrame io =>
      cases io with
      | none => rfl
      | some frame =>
          rw [safetyIoctl, ioctlQueueOp]
          by_cases hframe : Queueable frame
          · rw [if_neg (Nat.not_lt.mpr hframe.1.length_le.2), if_pos hframe, reply_dev,
              (queueRxFromLinkd_queueable ctx hframe).1]
          · rw [if_neg hframe, Queues.apply_keep]
            split
            · rfl
            · rw [reply_dev, queueRxFromLinkd_refused ctx hframe]
  | popTxFrame fault =>
      rw [ioctlQueueOp, ← fifoPopTxFrame_queues]
      simp only [safetyIoctl]
      split
      · rfl
      split <;> rfl
  | unknown => rfl

/-- Every call acts on the queues as its queue operation. -/
theorem call_queues (op : DevOp) :
    (dev.call ctx op).dev.queues = dev.queues.apply (dev.queueOp ctx op) := by
  cases op with
  | write ubuf fault => rw [call, reply_dev, safetyWrite_queues]
  | read count nonblock fault => rw [call, reply_dev, safetyRead_queues, queueOp]
  | poll => rfl
  | ioctl cmd => rw [call, safetyIoctl_queues, queueOp]
  | hbTimer =>
      rw [call, queueOp]
      split
      · rw [reply_dev, hbTimerFn_queues]
        rfl
      · rfl
  | recoveryWork =>
      rw [call, queueOp]
      split
      · rw [reply_dev, recoveryWorkFn_queues]
        rfl
      · rfl

theorem step_queues (input : DevOp × Context) :
    (dev.step input).1.queues = dev.queues.apply (dev.queueOp input.2 input.1) :=
  call_queues input.2 input.1

end SafetyCoproDev

end SafetyCopro
