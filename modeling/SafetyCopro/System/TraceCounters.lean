import Mathlib.Algebra.BigOperators.Group.Finset.Basic
import SafetyCopro.Driver.Counters
import SafetyCopro.System.Timeline

/-!
The counters of the tracing tool beside those of the driver. What the driver
counts it also traces, and the tool sums its counters over the CPUs as the driver
does. They differ in what they call a received frame: the driver means the RX
queue, the tracepoint is hit for a frame to the firmware, too.
-/

namespace SafetyCopro

/-! ### The counters -/

/-- The counter a tracepoint goes into. -/
def TraceEvent.counter : TraceEvent → TpCounterIdx
  | .frameReceived .. => .frameReceived
  | .frameDropped .. => .frameDropped
  | .timeoutDetected .. => .timeoutDetected
  | .recoveryQueued _ => .recoveryQueued
  | .pollWakeup _ => .pollWakeup

/-- How often a tracepoint was hit. -/
def hits (idx : TpCounterIdx) (trace : List TraceEvent) : Nat :=
  trace.countP fun e => e.counter = idx

namespace SafetyTrace

/-- `sum_percpu_u64`. -/
def sumPercpuU64 (b : SafetyTrace) (ncpu : Nat) (idx : TpCounterIdx) : U64 :=
  (List.range ncpu).foldl (fun total cpu => total + b.tpCounters cpu idx) 0

theorem sumPercpuU64_eq (b : SafetyTrace) (ncpu : Nat) (idx : TpCounterIdx) :
    b.sumPercpuU64 ncpu idx = ∑ cpu ∈ Finset.range ncpu, b.tpCounters cpu idx := by
  induction ncpu with
  | zero => rfl
  | succ n ih =>
      rw [Finset.sum_range_succ, ← ih, sumPercpuU64, sumPercpuU64, List.range_succ,
        List.foldl_append]
      rfl

theorem counterInc_sum (b : SafetyTrace) {cpu ncpu : Nat} (h : cpu < ncpu)
    (idx' idx : TpCounterIdx) :
    (b.counterInc cpu idx').sumPercpuU64 ncpu idx =
      b.sumPercpuU64 ncpu idx + if idx' = idx then 1 else 0 := by
  have hmem : cpu ∈ Finset.range ncpu := Finset.mem_range.mpr h
  rw [sumPercpuU64_eq, sumPercpuU64_eq, ← Finset.add_sum_erase _ _ hmem,
    ← Finset.add_sum_erase _ (fun cpu => b.tpCounters cpu idx) hmem]
  have hother : ∑ c ∈ (Finset.range ncpu).erase cpu, (b.counterInc cpu idx').tpCounters c idx =
      ∑ c ∈ (Finset.range ncpu).erase cpu, b.tpCounters c idx := by
    refine Finset.sum_congr rfl fun c hc => ?_
    simp only [counterInc, Function.update_of_ne (Finset.ne_of_mem_erase hc)]
  have hhere : (b.counterInc cpu idx').tpCounters cpu idx =
      b.tpCounters cpu idx + if idx' = idx then 1 else 0 := by
    by_cases hidx : idx' = idx
    · subst hidx
      simp only [counterInc, Function.update_self, if_true]
    · simp only [counterInc, Function.update_self, Function.update_of_ne (Ne.symm hidx),
        if_neg hidx, add_zero]
  rw [hother, hhere, add_right_comm]

/-- A handler counts its tracepoint. -/
theorem handle_counters (b : SafetyTrace) (e : TraceEvent) (p : Probe) :
    (b.handle (e, p)).1.tpCounters = (b.counterInc p.cpu e.counter).tpCounters := by
  cases e with
  | frameReceived seq type qlen =>
      simp only [handle, handleFrameReceived]
      split <;> rfl
  | pollWakeup events =>
      simp only [handle, handlePollWakeup]
      split <;> rfl
  | _ => rfl

theorem after_handle_sum {ncpu : Nat} {probes : TraceEvent → Probe}
    (h : ∀ e, (probes e).cpu < ncpu) (trace : List TraceEvent) (b : SafetyTrace)
    (idx : TpCounterIdx) :
    (Machine.after handle b (trace.map fun e => (e, probes e))).sumPercpuU64 ncpu idx =
      b.sumPercpuU64 ncpu idx + BitVec.ofNat 64 (hits idx trace) := by
  induction trace generalizing b with
  | nil => exact (BitVec.add_zero _).symm
  | cons e trace ih =>
      have hstep : (b.handle (e, probes e)).1.sumPercpuU64 ncpu idx =
          b.sumPercpuU64 ncpu idx + if e.counter = idx then 1 else 0 := by
        rw [← counterInc_sum b (h e) e.counter idx, sumPercpuU64, sumPercpuU64, handle_counters]
      have hhits : BitVec.ofNat 64 (hits idx (e :: trace)) =
          (if e.counter = idx then 1 else 0) + BitVec.ofNat 64 (hits idx trace) := by
        by_cases he : e.counter = idx
        · rw [if_pos he, hits, List.countP_cons_of_pos (by simpa using he), BitVec.ofNat_add,
            BitVec.add_comm]
          rfl
        · rw [if_neg he, hits, List.countP_cons_of_neg (by simpa using he), zero_add]
          rfl
      rw [List.map_cons, Machine.after_cons, ih, hstep, hhits, BitVec.add_assoc]

end SafetyTrace

/-! ### The counters of the driver -/

theorem hits_append (idx : TpCounterIdx) (trace trace' : List TraceEvent) :
    hits idx (trace ++ trace') = hits idx trace + hits idx trace' := List.countP_append

namespace SafetyCoproDev

/-- The driver counts what it traces, and `tx` of the frames traced as received are
not frames of the RX queue. -/
structure Tallied (dev dev' : SafetyCoproDev) (trace : List TraceEvent) (tx : Nat) : Prop where
  cpus : dev'.pcpu.length = dev.pcpu.length
  timeouts : dev'.timeoutCount = dev.timeoutCount + BitVec.ofNat 32 (hits .timeoutDetected trace)
  recoveries : dev'.retryCount = dev.retryCount + BitVec.ofNat 32 (hits .recoveryQueued trace)
  drops : dev'.droppedFrameCount =
    dev.droppedFrameCount + BitVec.ofNat 32 (hits .frameDropped trace)
  received : (dev'.pcpu.map SafetyCoproPcpu.rxFrames).sum + BitVec.ofNat 64 tx =
    (dev.pcpu.map SafetyCoproPcpu.rxFrames).sum + BitVec.ofNat 64 (hits .frameReceived trace)

/-- The counters a tracepoint goes with. -/
def ledger (dev : SafetyCoproDev) : List SafetyCoproPcpu × U32 × U32 × U32 :=
  (dev.pcpu, dev.timeoutCount, dev.retryCount, dev.droppedFrameCount)

namespace Tallied
variable {dev dev' dev'' : SafetyCoproDev} {trace trace' : List TraceEvent} {tx tx' : Nat}

/-- A step that neither counts nor traces, but for `poll`. -/
theorem quiet (h : dev'.ledger = dev.ledger) (htrace : ∀ e ∈ trace, e.counter = .pollWakeup) :
    Tallied dev dev' trace 0 := by
  simp only [ledger, Prod.mk.injEq] at h
  obtain ⟨hpcpu, htimeouts, hrecoveries, hdrops⟩ := h
  have hnone : ∀ idx, idx ≠ .pollWakeup → hits idx trace = 0 := by
    intro idx hidx
    refine List.countP_eq_zero.mpr fun e he => ?_
    simpa [htrace e he] using hidx.symm
  refine ⟨by rw [hpcpu], ?_, ?_, ?_, ?_⟩
  · rw [htimeouts, hnone _ (by simp)]
    exact (BitVec.add_zero _).symm
  · rw [hrecoveries, hnone _ (by simp)]
    exact (BitVec.add_zero _).symm
  · rw [hdrops, hnone _ (by simp)]
    exact (BitVec.add_zero _).symm
  · rw [hpcpu, hnone _ (by simp)]

theorem trans (h : Tallied dev dev' trace tx) (h' : Tallied dev' dev'' trace' tx') :
    Tallied dev dev'' (trace ++ trace') (tx + tx') where
  cpus := h'.cpus.trans h.cpus
  timeouts := by rw [h'.timeouts, h.timeouts, hits_append, BitVec.ofNat_add, BitVec.add_assoc]
  recoveries := by
    rw [h'.recoveries, h.recoveries, hits_append, BitVec.ofNat_add, BitVec.add_assoc]
  drops := by rw [h'.drops, h.drops, hits_append, BitVec.ofNat_add, BitVec.add_assoc]
  received := by
    have hfirst := h.received
    have hsecond := h'.received
    rw [hits_append, BitVec.ofNat_add, BitVec.ofNat_add]
    calc (dev''.pcpu.map SafetyCoproPcpu.rxFrames).sum + (BitVec.ofNat 64 tx + BitVec.ofNat 64 tx')
        = (dev''.pcpu.map SafetyCoproPcpu.rxFrames).sum + BitVec.ofNat 64 tx' +
            BitVec.ofNat 64 tx := by ac_rfl
      _ = (dev'.pcpu.map SafetyCoproPcpu.rxFrames).sum + BitVec.ofNat 64 tx +
            BitVec.ofNat 64 (hits .frameReceived trace') := by rw [hsecond]; ac_rfl
      _ = (dev.pcpu.map SafetyCoproPcpu.rxFrames).sum +
            (BitVec.ofNat 64 (hits .frameReceived trace) +
              BitVec.ofNat 64 (hits .frameReceived trace')) := by rw [hfirst]; ac_rfl

theorem congr (h : Tallied dev dev' trace tx) (hledger : dev''.ledger = dev'.ledger) :
    Tallied dev dev'' trace tx := by
  have hafter := h.trans (quiet hledger (List.forall_mem_nil _))
  rwa [List.append_nil] at hafter

variable {ctx : Context}

theorem recordDrop (dev : SafetyCoproDev) (ctx : Context) (seq : U16) (type : U8) :
    Tallied dev (dev.recordDrop ctx seq type).1 [.frameDropped seq type] 0 where
  cpus := List.length_modify _ _ _
  timeouts := (BitVec.add_zero _).symm
  recoveries := (BitVec.add_zero _).symm
  drops := rfl
  received := by
    have hmap : (dev.percpuIncDropped ctx.cpu).pcpu.map SafetyCoproPcpu.rxFrames =
        dev.pcpu.map SafetyCoproPcpu.rxFrames := map_modify_of_eq (by intro p; rfl) _ _
    exact congrArg (fun l => List.sum l + 0) hmap

theorem enqueueRx (hcpu : ctx.cpu < dev.pcpu.length) (frame : List U8) (seq seq' : U16)
    (type : U8) (event : SafetyTimelineEvent) (qlen : U32) :
    Tallied dev (dev.enqueueRx ctx frame seq event) [.frameReceived seq' type qlen] 0 where
  cpus := List.length_modify _ _ _
  timeouts := (BitVec.add_zero _).symm
  recoveries := (BitVec.add_zero _).symm
  drops := (BitVec.add_zero _).symm
  received := by
    have hsum : ((dev.percpuIncRx ctx.cpu frame.length).pcpu.map SafetyCoproPcpu.rxFrames).sum =
        (dev.pcpu.map SafetyCoproPcpu.rxFrames).sum + 1 := sum_map_modify (fun _ => rfl) hcpu
    exact (BitVec.add_zero _).trans hsum

theorem offerSynth (dev : SafetyCoproDev) (hcpu : ctx.cpu < dev.pcpu.length) (s : Synth) :
    Tallied dev (dev.offerSynth ctx s).1 (dev.offerSynth ctx s).2 0 := by
  have hseq : Tallied dev { dev with synthSeq := dev.synthSeq + 1 } [] 0 :=
    quiet rfl (List.forall_mem_nil _)
  rw [SafetyCoproDev.offerSynth]
  split
  · exact hseq.trans (@enqueueRx { dev with synthSeq := dev.synthSeq + 1 } ctx hcpu _ _ _ _ _ _)
  · exact hseq.trans (recordDrop { dev with synthSeq := dev.synthSeq + 1 } ctx _ _)

theorem recordProtoError (dev : SafetyCoproDev) (vres : SafetyValidateResult) :
    Tallied dev (dev.recordProtoError vres) [] 0 :=
  quiet (by cases vres <;> rfl) (List.forall_mem_nil _)

theorem checked (dev : SafetyCoproDev) (frame : List U8) :
    Tallied dev (dev.checked frame) [] 0 := by
  rw [SafetyCoproDev.checked]
  split
  · exact recordProtoError dev _
  · exact quiet rfl (List.forall_mem_nil _)

/-- A call that takes no frame for the firmware. -/
theorem of_le (h : Tallied dev dev' trace 0) (hle : dev'.txFifo.length ≤ dev.txFifo.length) :
    Tallied dev dev' trace (dev'.txFifo.length - dev.txFifo.length) :=
  (Nat.sub_eq_zero_of_le hle).symm ▸ h

end Tallied

section Fifos
variable {dev : SafetyCoproDev} {ctx : Context}

theorem offerSynth_txFifo (s : Synth) : (dev.offerSynth ctx s).1.txFifo = dev.txFifo := by
  rw [offerSynth]
  split <;> rfl

theorem recordProtoError_txFifo (vres : SafetyValidateResult) :
    (dev.recordProtoError vres).txFifo = dev.txFifo :=
  congrArg Queues.tx (dev.recordProtoError_queues vres)

theorem checked_txFifo (frame : List U8) : (dev.checked frame).txFifo = dev.txFifo := by
  rw [checked]
  split
  · exact recordProtoError_txFifo _
  · rfl

end Fifos

/-- Every way through the driver but a reset of the counters. -/
theorem Called.tallied {dev dev' : SafetyCoproDev} {ctx : Context} {op : DevOp}
    {trace : List TraceEvent} (h : Called dev ctx op dev' trace) (hop : op ≠ .ioctl .resetStats)
    (hcpu : ctx.cpu < dev.pcpu.length) :
    Tallied dev dev' trace (dev'.txFifo.length - dev.txFifo.length) := by
  have hnone : ∀ e ∈ ([] : List TraceEvent), e.counter = .pollWakeup := List.forall_mem_nil _
  cases h with
  | kept hidle htrace =>
      refine .of_le (.quiet rfl fun e he => ?_) le_rfl
      obtain ⟨events, rfl⟩ := htrace.mem he
      rfl
  | refused hmalformed hvres =>
      exact .of_le (.recordProtoError dev _) (le_of_eq (congrArg _ (recordProtoError_txFifo _)))
  | @written ubuf hwritable hroom =>
      have hlen : (dev.enqueueTx ctx ubuf (SafetyFrameHeader.ofBytes ubuf).sequenceId).txFifo =
          dev.txFifo ++ [ubuf] := rfl
      rw [hlen, List.length_append, Nat.add_sub_cancel_left]
      exact ⟨rfl, (BitVec.add_zero _).symm, (BitVec.add_zero _).symm, (BitVec.add_zero _).symm, rfl⟩
  | writeDropped seq type hfull => exact .of_le (.recordDrop dev ctx seq type) le_rfl
  | read count nonblock fault =>
      refine .of_le (.quiet ?_ hnone) ?_
      · rw [fifoPopFrame]
        split <;> rfl
      · exact le_of_eq (congrArg (fun q => q.tx.length) fifoPopFrame_queues)
  | popped fault =>
      refine .of_le (.quiet ?_ hnone) ?_
      · rw [fifoPopTxFrame]
        split <;> rfl
      · have htx : dev.fifoPopTxFrame.1.txFifo = dev.txFifo.tail :=
          congrArg Queues.tx fifoPopTxFrame_queues
        rw [htx, List.length_tail]
        exact Nat.sub_le _ _
  | reset => exact absurd rfl hop
  | timeoutSet hms => exact .of_le (.quiet rfl hnone) le_rfl
  | forced => exact .of_le (.quiet rfl hnone) le_rfl
  | injected faultType =>
      have hinjected : Tallied dev (dev.injected ctx faultType) [] 0 := .quiet rfl hnone
      have hmade := Tallied.offerSynth (dev.injected ctx faultType) hcpu
      refine .of_le (hinjected.trans (hmade _)) (le_of_eq ?_)
      exact congrArg List.length (offerSynth_txFifo _)
  | beat hbeat hroom => exact .of_le ((Tallied.enqueueRx hcpu _ _ _ _ _ _).congr rfl) le_rfl
  | @pushed frame hframe hbeat event hroom =>
      have hchecked := Tallied.checked dev frame
      have hcpu' : ctx.cpu < (dev.checked frame).pcpu.length := hchecked.cpus ▸ hcpu
      refine .of_le (hchecked.trans (.enqueueRx hcpu' _ _ _ _ _ _)) (le_of_eq ?_)
      exact congrArg List.length (checked_txFifo _)
  | pushDropped hframe seq type hfull =>
      refine .of_le ((Tallied.checked dev _).trans (.recordDrop _ ctx seq type)) (le_of_eq ?_)
      exact congrArg List.length (checked_txFifo _)
  | expired harmed =>
      have hexpired : Tallied dev (dev.expired ctx)
          [.timeoutDetected dev.hbTimeoutMs (dev.timeoutCount + 1)] 0 :=
        ⟨rfl, rfl, (BitVec.add_zero _).symm, (BitVec.add_zero _).symm, rfl⟩
      have hmade := Tallied.offerSynth (dev.expired ctx) hcpu (timeoutFault ctx)
      refine .of_le ((hexpired.trans hmade).congr rfl) (le_of_eq ?_)
      exact congrArg List.length (offerSynth_txFifo _)
  | recovered hqueued =>
      have hrecovering : Tallied dev (dev.recovering ctx)
          [.recoveryQueued (dev.retryCount + 1)] 0 :=
        ⟨rfl, (BitVec.add_zero _).symm, rfl, (BitVec.add_zero _).symm, rfl⟩
      have hmade := Tallied.offerSynth (dev.recovering ctx) hcpu (recoveryNotice ctx)
      refine .of_le (hrecovering.trans hmade) (le_of_eq ?_)
      exact congrArg List.length (offerSynth_txFifo _)

end SafetyCoproDev

namespace TracedDevice

/-- A call with the frames it took for the firmware. -/
def writeStep (s : TracedDevice) (c : TracedCall) : TracedDevice × List (List U8) :=
  ((s.step c).1, (s.step c).1.dev.txFifo.drop s.dev.txFifo.length)

/-- What the handlers counted is what the driver traced. -/
structure Counted (cpus : Nat) (s s' : TracedDevice) (tx : Nat) (trace : List TraceEvent) :
    Prop where
  driver : s.dev.Tallied s'.dev trace tx
  handlers : ∀ idx, s'.bpf.sumPercpuU64 cpus idx =
    s.bpf.sumPercpuU64 cpus idx + BitVec.ofNat 64 (hits idx trace)

theorem Counted.trans {cpus tx tx' : Nat} {s s' s'' : TracedDevice}
    {trace trace' : List TraceEvent} (h : Counted cpus s s' tx trace)
    (h' : Counted cpus s' s'' tx' trace') : Counted cpus s s'' (tx + tx') (trace ++ trace') where
  driver := h.driver.trans h'.driver
  handlers idx := by
    rw [h'.handlers, h.handlers, hits_append, BitVec.ofNat_add, BitVec.add_assoc]

variable {cpus : Nat} {s : TracedDevice}

theorem writeStep_counted {c : TracedCall} (hreset : c.op ≠ .ioctl .resetStats)
    (hcpu : c.ctx.cpu < s.dev.pcpu.length) (hprobe : ∀ e, (c.probes e).cpu < cpus) :
    Counted cpus s (s.writeStep c).1 (s.writeStep c).2.length (s.dev.call c.ctx c.op).trace where
  driver := by
    rw [writeStep, List.length_drop]
    exact (SafetyCoproDev.call_called c.ctx c.op).tallied hreset hcpu
  handlers idx := SafetyTrace.after_handle_sum hprobe _ s.bpf idx

theorem run_counted {calls : List TracedCall} (hreset : ∀ c ∈ calls, c.op ≠ .ioctl .resetStats)
    (hcpus : s.dev.pcpu.length = cpus)
    (hcpu : ∀ c ∈ calls, c.ctx.cpu < cpus ∧ ∀ e, (c.probes e).cpu < cpus) :
    ∃ trace, Counted cpus s (Machine.after step s calls)
      (Machine.outputs writeStep s calls).length trace := by
  induction calls generalizing s with
  | nil => exact ⟨[], .quiet rfl (List.forall_mem_nil _), fun _ => (BitVec.add_zero _).symm⟩
  | cons c calls ih =>
      obtain ⟨hc, hprobe⟩ := hcpu c List.mem_cons_self
      have hstep := writeStep_counted (hreset c List.mem_cons_self) (hcpus ▸ hc) hprobe
      obtain ⟨trace, hrest⟩ := ih (fun c hc => hreset c (List.mem_cons_of_mem _ hc))
        (hstep.driver.cpus.trans hcpus) (fun c hc => hcpu c (List.mem_cons_of_mem _ hc))
      rw [Machine.outputs_cons, List.length_append]
      exact ⟨_, hstep.trans hrest⟩

theorem step_cpus {c : TracedCall} (h : s.dev.pcpu.length = cpus) (hcpu : c.ctx.cpu < cpus) :
    (s.step c).1.dev.pcpu.length = cpus := by
  by_cases hop : c.op = .ioctl .resetStats
  · have hdev : (s.step c).1.dev = s.dev.iocResetStats := by
      rw [step, hop]
      rfl
    rw [hdev]
    exact (List.length_map _).trans h
  · have hcalled := @SafetyCoproDev.call_called s.dev c.ctx c.op
    exact (hcalled.tallied hop (h ▸ hcpu)).cpus.trans h

end TracedDevice

/-- Between two moments with no reset of the counters, the tracing tool counts as
many timeouts, recoveries and dropped frames as the driver; among the frames it
counts as received are those that `safety_write` took for the firmware. -/
theorem tracer_counters_agree {hbTimeoutMs : U32} {fifoDepth cpus : Nat} {dev : SafetyCoproDev}
    (hinit : safetyCoproInit hbTimeoutMs fifoDepth cpus = some dev)
    {before calls : List TracedCall}
    (hcpu : ∀ c ∈ before ++ calls, c.ctx.cpu < cpus ∧ ∀ e, (c.probes e).cpu < cpus)
    (hreset : ∀ c ∈ calls, c.op ≠ .ioctl .resetStats) {s s' : TracedDevice}
    (hs : s = Machine.after TracedDevice.step { dev } before)
    (hs' : s' = Machine.after TracedDevice.step s calls) :
    (s'.bpf.sumPercpuU64 cpus .timeoutDetected -
        s.bpf.sumPercpuU64 cpus .timeoutDetected).setWidth 32 =
      s'.dev.timeoutCount - s.dev.timeoutCount ∧
    (s'.bpf.sumPercpuU64 cpus .recoveryQueued -
        s.bpf.sumPercpuU64 cpus .recoveryQueued).setWidth 32 =
      s'.dev.retryCount - s.dev.retryCount ∧
    (s'.bpf.sumPercpuU64 cpus .frameDropped -
        s.bpf.sumPercpuU64 cpus .frameDropped).setWidth 32 =
      s'.dev.droppedFrameCount - s.dev.droppedFrameCount ∧
    s'.bpf.sumPercpuU64 cpus .frameReceived - s.bpf.sumPercpuU64 cpus .frameReceived =
      s'.dev.percpuSum.rxFrames - s.dev.percpuSum.rxFrames +
        BitVec.ofNat 64 (Machine.outputs TracedDevice.writeStep s calls).length := by
  have hcpus : s.dev.pcpu.length = cpus := by
    have hbefore : Machine.Along TracedDevice.step (fun _ c => c.ctx.cpu < cpus) { dev }
        (before ++ calls) := Machine.along_of_forall fun c hc => (hcpu c hc).1
    rw [hs]
    exact Machine.after_of_along (P := fun s : TracedDevice => s.dev.pcpu.length = cpus)
      (fun s c h hc => TracedDevice.step_cpus h hc) (SafetyCoproDev.balanced_init hinit).cpus
      hbefore
  obtain ⟨trace, hdriver, hhandlers⟩ := TracedDevice.run_counted hreset hcpus
    fun c hc => hcpu c (List.mem_append_right _ hc)
  rw [← hs'] at hdriver hhandlers
  have hgrown : ∀ idx, s'.bpf.sumPercpuU64 cpus idx - s.bpf.sumPercpuU64 cpus idx =
      BitVec.ofNat 64 (hits idx trace) := by
    intro idx
    rw [hhandlers, add_sub_cancel_left]
  have hwidth : ∀ n, (BitVec.ofNat 64 n).setWidth 32 = BitVec.ofNat 32 n :=
    BitVec.setWidth_ofNat_of_le (by decide)
  rw [hgrown, hgrown, hgrown, hgrown, hwidth, hwidth, hwidth]
  refine ⟨?_, ?_, ?_, ?_⟩
  · rw [hdriver.timeouts, add_sub_cancel_left]
  · rw [hdriver.recoveries, add_sub_cancel_left]
  · rw [hdriver.drops, add_sub_cancel_left]
  · rw [SafetyCoproDev.percpuSum_eq, SafetyCoproDev.percpuSum_eq, sub_add_eq_add_sub,
      hdriver.received, add_sub_cancel_left]

/-- A heartbeat arms the watchdog, which expires; its recovery, and a frame for the
firmware, all on the second CPU. -/
def reportedCalls : List TracedCall :=
  [TracedDevice.pushHeartbeat 1, .hbTimer, .recoveryWork,
    .write (packFrame safetyFrameAck 7 0 []) false].map fun op =>
    { op, ctx := { cpu := 1 }, probes := fun e =>
        { cpu := 1, nowNs := if e.counter = .frameReceived then 30 else 10 } }

theorem reportedCalls_probes (c : TracedCall) (hc : c ∈ reportedCalls) :
    c.ctx.cpu = 1 ∧ ∀ e, (c.probes e).cpu = 1 ∧ (c.probes e).reserved = true ∧
      (c.probes e).nowNs ≠ 0 := by
  obtain ⟨op, -, rfl⟩ := List.mem_map.mp hc
  refine ⟨rfl, fun e => ⟨rfl, rfl, ?_⟩⟩
  dsimp only
  split <;> decide

theorem tracer_counters_agree_oneTimeout :
    ∃ dev s s', safetyCoproInit 350 64 2 = some dev ∧ s = { dev } ∧
      s' = Machine.after TracedDevice.step s reportedCalls ∧
      s'.bpf.sumPercpuU64 2 .frameReceived = 4 ∧
      (Machine.outputs TracedDevice.writeStep s reportedCalls).length = 1 ∧
      s'.bpf.sumPercpuU64 2 .frameReceived - s.bpf.sumPercpuU64 2 .frameReceived =
        s'.dev.percpuSum.rxFrames - s.dev.percpuSum.rxFrames +
          BitVec.ofNat 64 (Machine.outputs TracedDevice.writeStep s reportedCalls).length := by
  obtain ⟨dev, hdev⟩ : ∃ dev, safetyCoproInit 350 64 2 = some dev := ⟨_, rfl⟩
  have hcpu : ∀ c ∈ [] ++ reportedCalls, c.ctx.cpu < 2 ∧ ∀ e, (c.probes e).cpu < 2 := by
    intro c hc
    obtain ⟨hctx, hprobes⟩ := reportedCalls_probes c hc
    exact ⟨by rw [hctx]; decide, fun e => by rw [(hprobes e).1]; decide⟩
  obtain ⟨-, -, -, hreceived⟩ := tracer_counters_agree hdev hcpu (by decide) rfl rfl
  refine ⟨dev, _, _, hdev, rfl, rfl, ?_, ?_, hreceived⟩
  · obtain rfl := Option.some.inj hdev
    decide +kernel
  · obtain rfl := Option.some.inj hdev
    decide +kernel

end SafetyCopro
