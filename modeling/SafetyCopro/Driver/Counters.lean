import Mathlib.Algebra.BigOperators.Group.List.Basic
import Mathlib.Data.BitVec
import SafetyCopro.Driver.Calls
import SafetyCopro.Lib.Machine

/-!
The counters of the device. Protocol errors are counted as a total and by kind,
dropped frames in the device and on the CPU that dropped them, and frames put
into the RX queue on the CPU that put them there. Every way through the driver
keeps these in step.
-/

namespace SafetyCopro

/-- What a step shows of the RX queue. -/
inductive RxAudit
  | accepted (frame : List U8)
  | delivered (frame : List U8)
  | reset
deriving DecidableEq, Repr

namespace RxAudit

def arrival : RxAudit → Option (List U8)
  | .accepted frame => some frame
  | .delivered _ | .reset => none

def departure : RxAudit → Option (List U8)
  | .delivered frame => some frame
  | .accepted _ | .reset => none

/-- One more event for the number of frames accepted since the last reset. -/
def count (n : Nat) : RxAudit → Nat
  | .accepted _ => n + 1
  | .delivered _ => n
  | .reset => 0

/-- What the end of a call shows. -/
def ofCall : DevOp → Except Errno Reply → List RxAudit
  | .read .., .ok (.frame bytes) => [.delivered bytes]
  | .ioctl .resetStats, _ => [.reset]
  | _, _ => []

theorem foldl_count_ofCall {op : DevOp} (hop : op ≠ .ioctl .resetStats)
    (result : Except Errno Reply) (n : Nat) : (ofCall op result).foldl count n = n := by
  rw [ofCall.eq_def]
  split
  · rfl
  · exact absurd rfl hop
  · rfl

theorem foldl_count_accepted (n : Nat) (frames : List (List U8)) :
    (frames.map accepted).foldl count n = n + frames.length := by
  induction frames generalizing n with
  | nil => rfl
  | cons f frames ih =>
      rw [List.map_cons, List.foldl_cons, ih, List.length_cons]
      exact Nat.succ_add_eq_add_succ n _

end RxAudit

def acceptedSinceReset (events : List RxAudit) : Nat := events.foldl RxAudit.count 0

namespace SafetyCoproDev

/-- The frames the step put into the queue, the frame a read returned and a
reset of the counters. -/
def auditStep (dev : SafetyCoproDev) (input : DevOp × Context) : SafetyCoproDev × List RxAudit :=
  let o := dev.call input.2 input.1
  let arrivals := o.dev.rxFifo.drop dev.rxFifo.length
  (o.dev, arrivals.map .accepted ++ RxAudit.ofCall input.1 o.result)

theorem after_auditStep (dev : SafetyCoproDev) (inputs : List (DevOp × Context)) :
    Machine.after auditStep dev inputs = Machine.after step dev inputs := by
  induction inputs generalizing dev with
  | nil => rfl
  | cons input inputs ih => exact ih _

end SafetyCoproDev

/-! ### Sums over the CPUs -/

theorem sum_map_modify {α M : Type} [AddCommMonoid M] {f : α → α} {g : α → M} {d : M}
    (h : ∀ a, g (f a) = g a + d) {l : List α} {i : Nat} (hi : i < l.length) :
    ((l.modify i f).map g).sum = (l.map g).sum + d := by
  induction l generalizing i with
  | nil => cases hi
  | cons a l ih =>
      cases i with
      | zero =>
          rw [List.modify_zero_cons, List.map_cons, List.map_cons, List.sum_cons, List.sum_cons, h,
            add_right_comm]
      | succ i =>
          rw [List.modify_succ_cons, List.map_cons, List.map_cons, List.sum_cons, List.sum_cons,
            ih (Nat.lt_of_succ_lt_succ hi), add_assoc]

theorem map_modify_of_eq {α β : Type} {f : α → α} {g : α → β} (h : ∀ a, g (f a) = g a)
    (l : List α) (i : Nat) : (l.modify i f).map g = l.map g := by
  induction l generalizing i with
  | nil => rw [List.modify_nil]
  | cons a l ih =>
      cases i with
      | zero => rw [List.modify_zero_cons, List.map_cons, List.map_cons, h]
      | succ i => rw [List.modify_succ_cons, List.map_cons, List.map_cons, ih]

namespace SafetyCoproDev

theorem percpuSum_eq (dev : SafetyCoproDev) :
    dev.percpuSum =
      ⟨(dev.pcpu.map SafetyCoproPcpu.rxFrames).sum, (dev.pcpu.map SafetyCoproPcpu.dropped).sum,
        (dev.pcpu.map SafetyCoproPcpu.bytes).sum⟩ := by
  have hfold : ∀ (ps : List SafetyCoproPcpu) (acc : SafetyCoproPcpu),
      ps.foldl (fun sum p =>
        ⟨sum.rxFrames + p.rxFrames, sum.dropped + p.dropped, sum.bytes + p.bytes⟩) acc =
      ⟨acc.rxFrames + (ps.map SafetyCoproPcpu.rxFrames).sum,
        acc.dropped + (ps.map SafetyCoproPcpu.dropped).sum,
        acc.bytes + (ps.map SafetyCoproPcpu.bytes).sum⟩ := by
    intro ps
    induction ps with
    | nil => intro acc; simp
    | cons p ps ih => intro acc; simp [ih, add_assoc]
  rw [percpuSum, hfold]
  simp

/-- The counters agree with each other, with as many CPUs as the machine has and
`accepted` frames put into the RX queue since they were reset. -/
structure Balanced (cpus accepted : Nat) (dev : SafetyCoproDev) : Prop where
  cpus : dev.pcpu.length = cpus
  protocolErrors : dev.protocolErrorCount =
    dev.protoErrMagic + dev.protoErrVersion + dev.protoErrLength + dev.protoErrChecksum
  dropped : dev.droppedFrameCount = (dev.pcpu.map SafetyCoproPcpu.dropped).sum.setWidth 32
  rxFrames : (dev.pcpu.map SafetyCoproPcpu.rxFrames).sum = BitVec.ofNat 64 accepted

/-- The counters of the device, apart from everything else. -/
def tally (dev : SafetyCoproDev) :
    List SafetyCoproPcpu × U32 × U32 × U32 × U32 × U32 × U32 :=
  (dev.pcpu, dev.protocolErrorCount, dev.protoErrMagic, dev.protoErrVersion, dev.protoErrLength,
    dev.protoErrChecksum, dev.droppedFrameCount)

section Fifos
variable {dev : SafetyCoproDev} {ctx : Context}

@[simp] theorem recordProtoError_rxFifo (vres : SafetyValidateResult) :
    (dev.recordProtoError vres).rxFifo = dev.rxFifo :=
  congrArg Queues.rx (dev.recordProtoError_queues vres)

@[simp] theorem recordDrop_rxFifo (seq : U16) (type : U8) :
    (dev.recordDrop ctx seq type).1.rxFifo = dev.rxFifo := rfl

@[simp] theorem feed_rxFifo : (dev.feed ctx).rxFifo = dev.rxFifo := rfl

theorem enqueueRx_length (frame : List U8) (seq : U16) (event : SafetyTimelineEvent) :
    (dev.enqueueRx ctx frame seq event).rxFifo.length = dev.rxFifo.length + 1 :=
  List.length_append

theorem fifoPopFrame_length_le : dev.fifoPopFrame.1.rxFifo.length ≤ dev.rxFifo.length := by
  have hrx : dev.fifoPopFrame.1.rxFifo = dev.rxFifo.tail := congrArg Queues.rx fifoPopFrame_queues
  rw [hrx, List.length_tail]
  exact Nat.sub_le _ _

theorem fifoPopFrame_tally : dev.fifoPopFrame.1.tally = dev.tally := by
  rw [fifoPopFrame]
  split <;> rfl

@[simp] theorem fifoPopTxFrame_rxFifo : dev.fifoPopTxFrame.1.rxFifo = dev.rxFifo :=
  congrArg Queues.rx fifoPopTxFrame_queues

theorem fifoPopTxFrame_tally : dev.fifoPopTxFrame.1.tally = dev.tally := by
  rw [fifoPopTxFrame]
  split <;> rfl

end Fifos

namespace Balanced
variable {cpus accepted : Nat} {dev : SafetyCoproDev} {ctx : Context}

theorem congr {dev' : SafetyCoproDev} (h : dev.Balanced cpus accepted)
    (htally : dev'.tally = dev.tally) : dev'.Balanced cpus accepted := by
  simp only [tally, Prod.mk.injEq] at htally
  obtain ⟨hpcpu, htotal, hmagic, hversion, hlength, hchecksum, hdropped⟩ := htally
  refine ⟨?_, ?_, ?_, ?_⟩
  · rw [hpcpu, h.cpus]
  · rw [htotal, hmagic, hversion, hlength, hchecksum, h.protocolErrors]
  · rw [hdropped, hpcpu, h.dropped]
  · rw [hpcpu, h.rxFrames]

theorem recordProtoError (h : dev.Balanced cpus accepted) {vres : SafetyValidateResult}
    (hvres : vres ≠ .ok) : (dev.recordProtoError vres).Balanced cpus accepted := by
  have hsum := h.protocolErrors
  refine ⟨?_, ?_, ?_, ?_⟩
  · cases vres <;> exact h.cpus
  · cases vres with
    | ok => exact absurd rfl hvres
    | badMagic | badVersion | badLength | badChecksum =>
        simp only [SafetyCoproDev.recordProtoError, hsum]
        ac_rfl
  · cases vres <;> exact h.dropped
  · cases vres <;> exact h.rxFrames

theorem recordDrop (h : dev.Balanced cpus accepted) (hcpu : ctx.cpu < cpus) (seq : U16)
    (type : U8) : (dev.recordDrop ctx seq type).1.Balanced cpus accepted := by
  have hlt : ctx.cpu < dev.pcpu.length := h.cpus ▸ hcpu
  refine ⟨(List.length_modify _ _ _).trans h.cpus, h.protocolErrors, ?_, ?_⟩
  · have hsum : ((dev.percpuIncDropped ctx.cpu).pcpu.map SafetyCoproPcpu.dropped).sum =
        (dev.pcpu.map SafetyCoproPcpu.dropped).sum + 1 := sum_map_modify (fun _ => rfl) hlt
    have hwidth : ((dev.pcpu.map SafetyCoproPcpu.dropped).sum + 1).setWidth 32 =
        (dev.pcpu.map SafetyCoproPcpu.dropped).sum.setWidth 32 + 1 :=
      BitVec.setWidth_add _ _ (by decide)
    exact (congrArg (· + 1) h.dropped).trans ((congrArg _ hsum).trans hwidth).symm
  · have hmap : (dev.percpuIncDropped ctx.cpu).pcpu.map SafetyCoproPcpu.rxFrames =
        dev.pcpu.map SafetyCoproPcpu.rxFrames := map_modify_of_eq (by intro p; rfl) _ _
    exact (congrArg List.sum hmap).trans h.rxFrames

theorem enqueueRx (h : dev.Balanced cpus accepted) (hcpu : ctx.cpu < cpus) (frame : List U8)
    (seq : U16) (event : SafetyTimelineEvent) :
    (dev.enqueueRx ctx frame seq event).Balanced cpus (accepted + 1) := by
  have hlt : ctx.cpu < dev.pcpu.length := h.cpus ▸ hcpu
  refine ⟨(List.length_modify _ _ _).trans h.cpus, h.protocolErrors, ?_, ?_⟩
  · have hmap : (dev.percpuIncRx ctx.cpu frame.length).pcpu.map SafetyCoproPcpu.dropped =
        dev.pcpu.map SafetyCoproPcpu.dropped := map_modify_of_eq (by intro p; rfl) _ _
    exact h.dropped.trans (congrArg (fun l => (List.sum l).setWidth 32) hmap).symm
  · have hsum : ((dev.percpuIncRx ctx.cpu frame.length).pcpu.map SafetyCoproPcpu.rxFrames).sum =
        (dev.pcpu.map SafetyCoproPcpu.rxFrames).sum + 1 := sum_map_modify (fun _ => rfl) hlt
    have hnext : BitVec.ofNat 64 (accepted + 1) = BitVec.ofNat 64 accepted + 1 :=
      BitVec.ofNat_add accepted 1
    rw [h.rxFrames, ← hnext] at hsum
    exact hsum

theorem zero (hcpus : dev.pcpu.length = cpus) (hpcpu : ∀ p ∈ dev.pcpu, p = {})
    (herrors : dev.protocolErrorCount =
      dev.protoErrMagic + dev.protoErrVersion + dev.protoErrLength + dev.protoErrChecksum)
    (hdropped : dev.droppedFrameCount = 0) : dev.Balanced cpus 0 := by
  have hzero : ∀ g : SafetyCoproPcpu → U64, g {} = 0 → (dev.pcpu.map g).sum = 0 := by
    intro g hg
    refine List.sum_eq_zero fun x hx => ?_
    obtain ⟨p, hp, rfl⟩ := List.mem_map.mp hx
    rw [hpcpu p hp, hg]
  refine ⟨hcpus, herrors, ?_, hzero _ rfl⟩
  rw [hdropped, hzero _ rfl]
  rfl

theorem reset (h : dev.Balanced cpus accepted) : dev.iocResetStats.Balanced cpus 0 := by
  refine zero ((List.length_map _).trans h.cpus) (fun p hp => ?_) rfl rfl
  obtain ⟨-, -, rfl⟩ := List.mem_map.mp hp
  rfl

theorem checked (h : dev.Balanced cpus accepted) (frame : List U8) :
    (dev.checked frame).Balanced cpus accepted := by
  rw [SafetyCoproDev.checked]
  split
  · exact h.recordProtoError (by decide)
  · exact h

theorem offerSynth (h : dev.Balanced cpus accepted) (hcpu : ctx.cpu < cpus) (s : Synth) :
    (dev.offerSynth ctx s).1.Balanced cpus
      (accepted + ((dev.offerSynth ctx s).1.rxFifo.length - dev.rxFifo.length)) := by
  have hseq : { dev with synthSeq := dev.synthSeq + 1 }.Balanced cpus accepted := h.congr rfl
  rw [SafetyCoproDev.offerSynth]
  split
  · rw [enqueueRx_length, Nat.add_sub_cancel_left]
    exact hseq.enqueueRx hcpu _ _ _
  · rw [recordDrop_rxFifo, Nat.sub_self]
    exact hseq.recordDrop hcpu _ _

/-- Every other way through the driver keeps the balance, with the frames it put
into the queue counted. -/
theorem called {op : DevOp} {dev' : SafetyCoproDev} {trace : List TraceEvent}
    (hcalled : Called dev ctx op dev' trace) (hop : op ≠ .ioctl .resetStats)
    (h : dev.Balanced cpus accepted) (hcpu : ctx.cpu < cpus) :
    dev'.Balanced cpus (accepted + (dev'.rxFifo.length - dev.rxFifo.length)) := by
  cases hcalled with
  | kept hidle htrace =>
      rw [Nat.sub_self]
      exact h
  | refused hmalformed hvres =>
      rw [recordProtoError_rxFifo, Nat.sub_self]
      exact h.recordProtoError hvres
  | written hwritable hroom => exact Nat.sub_self _ ▸ h.congr rfl
  | writeDropped seq type hfull =>
      rw [recordDrop_rxFifo, Nat.sub_self]
      exact h.recordDrop hcpu seq type
  | read count nonblock fault =>
      rw [Nat.sub_eq_zero_of_le fifoPopFrame_length_le]
      exact h.congr fifoPopFrame_tally
  | popped fault =>
      rw [fifoPopTxFrame_rxFifo, Nat.sub_self]
      exact h.congr fifoPopTxFrame_tally
  | reset => exact absurd rfl hop
  | timeoutSet hms => exact Nat.sub_self _ ▸ h.congr rfl
  | forced => exact Nat.sub_self _ ▸ h.congr rfl
  | injected faultType =>
      have hinjected : (dev.injected ctx faultType).Balanced cpus accepted := h.congr rfl
      exact hinjected.offerSynth hcpu _
  | beat hbeat hroom =>
      rw [feed_rxFifo, enqueueRx_length, Nat.add_sub_cancel_left]
      exact (h.enqueueRx hcpu _ _ _).congr rfl
  | pushed hframe hbeat event hroom =>
      rw [enqueueRx_length, checked_room.1, Nat.add_sub_cancel_left]
      exact (h.checked _).enqueueRx hcpu _ _ _
  | pushDropped hframe seq type hfull =>
      rw [recordDrop_rxFifo, checked_room.1, Nat.sub_self]
      exact (h.checked _).recordDrop hcpu seq type
  | expired harmed =>
      have hexpired : (dev.expired ctx).Balanced cpus accepted := h.congr rfl
      exact (hexpired.offerSynth hcpu _).congr rfl
  | recovered hqueued =>
      have hrecovering : (dev.recovering ctx).Balanced cpus accepted := h.congr rfl
      exact hrecovering.offerSynth hcpu _

end Balanced

/-! ### Runs -/

variable {cpus : Nat} {dev : SafetyCoproDev}

theorem auditStep_balanced {events : List RxAudit} {input : DevOp × Context}
    (h : dev.Balanced cpus (acceptedSinceReset events)) (hcpu : input.2.cpu < cpus) :
    (dev.auditStep input).1.Balanced cpus
      (acceptedSinceReset (events ++ (dev.auditStep input).2)) := by
  obtain ⟨op, ctx⟩ := input
  have hcalled := @call_called dev ctx op
  rw [acceptedSinceReset] at h
  rw [acceptedSinceReset, List.foldl_append]
  simp only [auditStep, List.foldl_append, RxAudit.foldl_count_accepted, List.length_drop]
  by_cases hop : op = .ioctl .resetStats
  · subst hop
    exact h.reset
  · rw [RxAudit.foldl_count_ofCall hop]
    exact h.called hcalled hop hcpu

/-- The slots of the RX queue. -/
def RxQueueable (dev : SafetyCoproDev) : Prop := ∀ slot ∈ dev.rxFifo, Queueable slot

theorem call_rxQueueable (h : dev.RxQueueable) (ctx : Context) (op : DevOp) :
    (dev.call ctx op).dev.RxQueueable := by
  have hrx : (dev.call ctx op).dev.rxFifo = (dev.queues.apply (dev.queueOp ctx op)).rx :=
    congrArg Queues.rx (call_queues ctx op)
  have heffect := dev.queueOp_effect ctx op
  have happend : ∀ frame, Queueable frame →
      ∀ slot ∈ (dev.queues.apply (.pushRx frame)).rx, Queueable slot := by
    intro frame hframe slot hslot
    rw [Queues.apply] at hslot
    split at hslot
    · obtain hslot | hslot := List.mem_append.mp hslot
      · exact h slot hslot
      · rwa [List.mem_singleton.mp hslot]
    · exact h slot hslot
  rw [RxQueueable, hrx]
  generalize dev.queueOp ctx op = q at heffect ⊢
  cases heffect with
  | written hmax hvalid =>
      rw [Queues.apply_pushTx_rx]
      exact h
  | popped fault => exact h
  | read count nonblock fault => exact fun slot hslot => h slot (List.mem_of_mem_tail hslot)
  | pushed hframe => exact happend _ hframe
  | made op s => exact happend _ (queueable_packFrame s.type _ _ s.payload_fits)
  | kept op => exact h

theorem balanced_init {hbTimeoutMs : U32} {fifoDepth : Nat}
    (h : safetyCoproInit hbTimeoutMs fifoDepth cpus = some dev) : dev.Balanced cpus 0 := by
  dsimp only [safetyCoproInit] at h
  generalize roundupPowOfTwo _ = depth at h
  split at h
  · cases h
  · obtain rfl := Option.some.inj h
    exact .zero List.length_replicate (fun p hp => List.eq_of_mem_replicate hp) rfl rfl

end SafetyCoproDev

/-- In every state the driver comes to, the RX queue holds whole frames of the
protocol and the counters agree with each other and with what was put into the
queue; and no buffer comes to the second refusal of `queue_rx_from_linkd`. -/
theorem counters_agree {hbTimeoutMs : U32} {fifoDepth cpus : Nat} {dev : SafetyCoproDev}
    (h : safetyCoproInit hbTimeoutMs fifoDepth cpus = some dev) (inputs : List (DevOp × Context))
    (hcpus : ∀ input ∈ inputs, input.2.cpu < cpus) :
    (∀ slot ∈ (Machine.after SafetyCoproDev.step dev inputs).rxFifo,
      (SafetyFrameHeader.ofBytes slot).magic = safetyProtoMagic ∧
        (SafetyFrameHeader.ofBytes slot).version = safetyProtoVersion ∧
        slot.length = 16 + (SafetyFrameHeader.ofBytes slot).payloadLength.toNat ∧
        slot.length ≤ 272) ∧
    (Machine.after SafetyCoproDev.step dev inputs).protocolErrorCount =
      (Machine.after SafetyCoproDev.step dev inputs).protoErrMagic +
        (Machine.after SafetyCoproDev.step dev inputs).protoErrVersion +
        (Machine.after SafetyCoproDev.step dev inputs).protoErrLength +
        (Machine.after SafetyCoproDev.step dev inputs).protoErrChecksum ∧
    (Machine.after SafetyCoproDev.step dev inputs).droppedFrameCount =
      (Machine.after SafetyCoproDev.step dev inputs).percpuSum.dropped.setWidth 32 ∧
    (Machine.after SafetyCoproDev.step dev inputs).percpuSum.rxFrames =
      BitVec.ofNat 64
        (acceptedSinceReset (Machine.outputs SafetyCoproDev.auditStep dev inputs)) ∧
    ∀ frame : List U8, safetyHeaderSize ≤ frame.length → frame.length ≤ safetyMaxFrameSize →
      (SafetyFrameHeader.ofBytes frame).magic = safetyProtoMagic →
      (SafetyFrameHeader.ofBytes frame).version = safetyProtoVersion →
      (SafetyFrameHeader.ofBytes frame).payloadLength.toNat ≤ safetyMaxPayload →
      frame.length = safetyHeaderSize + (SafetyFrameHeader.ofBytes frame).payloadLength.toNat →
      safetyFrameValidate frame = .ok ∨ safetyFrameValidate frame = .badChecksum := by
  have hbalanced : (Machine.after SafetyCoproDev.auditStep dev inputs).Balanced cpus
      (acceptedSinceReset (Machine.outputs SafetyCoproDev.auditStep dev inputs)) :=
    Machine.outputs_of_along
      (P := fun events (dev : SafetyCoproDev) => dev.Balanced cpus (acceptedSinceReset events))
      (G := fun _ (input : DevOp × Context) => input.2.cpu < cpus)
      (fun _ _ _ => SafetyCoproDev.auditStep_balanced)
      (SafetyCoproDev.balanced_init h) (Machine.along_of_forall hcpus)
  have hslots : (Machine.after SafetyCoproDev.step dev inputs).RxQueueable := by
    refine Machine.after_invariant (fun dev input hdev => ?_) ?_ inputs
    · exact SafetyCoproDev.call_rxQueueable hdev input.2 input.1
    · rw [SafetyCoproDev.RxQueueable, (SafetyCoproDev.init_fifos h).1]
      exact List.forall_mem_nil _
  rw [SafetyCoproDev.after_auditStep] at hbalanced
  rw [SafetyCoproDev.percpuSum_eq]
  refine ⟨fun slot hslot => ?_, hbalanced.protocolErrors, hbalanced.dropped, hbalanced.rxFrames,
    ?_⟩
  · have hframe := hslots slot hslot
    exact ⟨hframe.1.1, hframe.2, hframe.1.2.2, hframe.1.length_le.2⟩
  · intro frame _ _ hmagic hversion hfits hlen
    exact SafetyCoproDev.safetyFrameValidate_queueable ⟨⟨hmagic, hfits, hlen⟩, hversion⟩

/-- A heartbeat, a buffer that is no frame and a fault of the driver's own, on
the two CPUs of the machine. -/
def countedInputs : List (DevOp × Context) :=
  [(.ioctl (.pushRxFrame (some (packFrame safetyFrameHeartbeat 1 0 []))), {}),
    (.ioctl (.pushRxFrame (some (List.replicate 16 0))), {}),
    (.ioctl (.injectFault (some 1)), { cpu := 1 })]

theorem counters_agree_two_frames :
    ∃ dev, safetyCoproInit 0 0 2 = some dev ∧
      (Machine.after SafetyCoproDev.step dev countedInputs).rxFifo.length = 2 ∧
      (Machine.after SafetyCoproDev.step dev countedInputs).protocolErrorCount = 1 ∧
      (Machine.after SafetyCoproDev.step dev countedInputs).percpuSum.rxFrames =
        BitVec.ofNat 64
          (acceptedSinceReset (Machine.outputs SafetyCoproDev.auditStep dev countedInputs)) :=
  ⟨_, rfl, by decide +kernel, by decide +kernel,
    (@counters_agree 0 0 2 _ rfl countedInputs (by decide)).2.2.2.1⟩

end SafetyCopro
