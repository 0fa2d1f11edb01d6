import SafetyCopro.Lib.Machine
import SafetyCopro.Driver.Calls
import SafetyCopro.Ebpf.SafetyTrace

/-!
The driver under the eBPF handlers. A heartbeat counts as restored with the
first frame that is traced behind a recovery; the first to come is the report
that the recovery work makes itself.
-/

namespace SafetyCopro

structure TracedDevice where
  dev : SafetyCoproDev
  bpf : SafetyTrace := {}

/-- A call on the device, and what the handlers read when it traces something. -/
structure TracedCall where
  op : DevOp
  ctx : Context := {}
  probes : TraceEvent → Probe := fun _ => {}

namespace TracedDevice

def step (s : TracedDevice) (c : TracedCall) : TracedDevice × List TimelineEvent :=
  let o := s.dev.call c.ctx c.op
  let inputs := o.trace.map fun e => (e, c.probes e)
  (⟨o.dev, Machine.after SafetyTrace.handle s.bpf inputs⟩,
    Machine.outputs SafetyTrace.handle s.bpf inputs)

/-- The restored heartbeats of a call are heartbeats that the daemon pushes with
it into the RX queue. -/
def Genuine (s : TracedDevice) (c : TracedCall) : Prop :=
  ∀ ev ∈ (s.step c).2, ev.kind = .heartbeatRestored →
    ∃ frame, c.op = .ioctl (.pushRxFrame (some frame)) ∧
      (SafetyFrameHeader.ofBytes frame).type = safetyFrameHeartbeat ∧
      (s.step c).1.dev.rxFifo = s.dev.rxFifo ++ [frame] ∧
      ev.aux = (SafetyFrameHeader.ofBytes frame).sequenceId.setWidth 32

end TracedDevice

namespace SafetyCoproDev

/-- The calls that put a frame into a queue that is no heartbeat of the daemon. -/
def PutsForeign (dev : SafetyCoproDev) : DevOp → Prop
  | .write ubuf fault => Writable ubuf fault ∧ dev.txFifo.length < dev.fifoDepth
  | .read .. | .poll => False
  | .ioctl cmd =>
      match cmd with
      | .injectFault faultType => faultType ≠ none ∧ dev.rxFifo.length < dev.fifoDepth
      | .pushRxFrame (some frame) =>
          Queueable frame ∧ (SafetyFrameHeader.ofBytes frame).type ≠ safetyFrameHeartbeat ∧
            dev.rxFifo.length < dev.fifoDepth
      | _ => False
  | .hbTimer => dev.hbTimerArmed = true ∧ dev.rxFifo.length < dev.fifoDepth
  | .recoveryWork => dev.recoveryWorkQueued = true ∧ dev.rxFifo.length < dev.fifoDepth

instance decidablePutsForeign (dev : SafetyCoproDev) : (op : DevOp) → Decidable (dev.PutsForeign op)
  | .write _ _ => inferInstanceAs (Decidable (_ ∧ _))
  | .read .. | .poll => .isFalse id
  | .ioctl (.injectFault _) => inferInstanceAs (Decidable (_ ∧ _))
  | .ioctl (.pushRxFrame (some _)) => inferInstanceAs (Decidable (_ ∧ _ ∧ _))
  | .ioctl (.pushRxFrame none) => .isFalse id
  | .ioctl (.getStats _) | .ioctl .resetStats | .ioctl (.setHbTimeoutMs _) | .ioctl (.getState _)
  | .ioctl .forceRecovery | .ioctl (.popTxFrame _) | .ioctl .unknown => .isFalse id
  | .hbTimer => inferInstanceAs (Decidable (_ ∧ _))
  | .recoveryWork => inferInstanceAs (Decidable (_ ∧ _))

variable {dev dev' : SafetyCoproDev} {ctx : Context} {op : DevOp} {trace : List TraceEvent}

theorem Unnoticed.mem {e : TraceEvent} (h : Unnoticed trace) (hmem : e ∈ trace) :
    ∃ events, e = .pollWakeup events := by
  cases h with
  | nothing => cases hmem
  | polled events => exact ⟨events, List.mem_singleton.mp hmem⟩

/-- A frame of the driver's own is traced once, as queued or as dropped. -/
theorem mem_offerSynth {s : Synth} {e : TraceEvent} (h : e ∈ (dev.offerSynth ctx s).2) :
    (dev.rxFifo.length < dev.fifoDepth ∧ ∃ seq type qlen, e = .frameReceived seq type qlen) ∨
      ∃ seq type, e = .frameDropped seq type := by
  rw [offerSynth] at h
  split at h
  · rename_i hroom
    exact Or.inl ⟨hroom, _, _, _, List.mem_singleton.mp h⟩
  · rw [recordDrop] at h
    exact Or.inr ⟨_, _, List.mem_singleton.mp h⟩

theorem offerSynth_received {s : Synth} {seq : U16} {type : U8} {qlen : U32}
    (h : .frameReceived seq type qlen ∈ (dev.offerSynth ctx s).2) :
    dev.rxFifo.length < dev.fifoDepth := by
  obtain ⟨hroom, -⟩ | ⟨seq', type', hdropped⟩ := mem_offerSynth h
  · exact hroom
  · cases hdropped

theorem offerSynth_room {s : Synth} (hroom : dev.rxFifo.length < dev.fifoDepth) :
    (dev.offerSynth ctx s).2 =
      [.frameReceived dev.synthSeq s.type (BitVec.ofNat 32 (dev.rxFifo.length + 1))] := by
  rw [offerSynth, if_pos hroom]

/-- A frame that is traced is a heartbeat of the daemon or foreign. -/
theorem Called.received (h : Called dev ctx op dev' trace) {seq : U16} {type : U8} {qlen : U32}
    (hmem : .frameReceived seq type qlen ∈ trace) :
    dev.PutsForeign op ∨
      ∃ frame, op = .ioctl (.pushRxFrame (some frame)) ∧
        (SafetyFrameHeader.ofBytes frame).type = safetyFrameHeartbeat ∧
        dev'.rxFifo = dev.rxFifo ++ [frame] ∧
        seq = (SafetyFrameHeader.ofBytes frame).sequenceId := by
  cases h with
  | kept hop htrace =>
      obtain ⟨events, heq⟩ := htrace.mem hmem
      cases heq
  | refused hop hvres => cases hmem
  | written hwritable hroom => exact Or.inl ⟨hwritable, hroom⟩
  | writeDropped seq' type' hfull => cases List.mem_singleton.mp hmem
  | read count nonblock fault => cases hmem
  | popped fault => cases hmem
  | reset => cases hmem
  | timeoutSet hms => cases hmem
  | forced => cases hmem
  | injected faultType =>
      exact Or.inl ⟨nofun, @offerSynth_received (dev.injected ctx faultType) _ _ _ _ _ hmem⟩
  | beat hbeat hroom =>
      obtain ⟨hseq, -, -⟩ := TraceEvent.frameReceived.inj (List.mem_singleton.mp hmem)
      exact Or.inr ⟨_, rfl, hbeat.type, rfl, hseq⟩
  | @pushed frame hframe hbeat event hroom =>
      obtain ⟨hseq, -, -⟩ := TraceEvent.frameReceived.inj (List.mem_singleton.mp hmem)
      by_cases htype : (SafetyFrameHeader.ofBytes frame).type = safetyFrameHeartbeat
      · refine Or.inr ⟨frame, rfl, htype, ?_, hseq⟩
        exact congrArg (· ++ [frame]) checked_room.1
      · exact Or.inl ⟨hframe, htype, hroom⟩
  | pushDropped hframe seq' type' hfull => cases List.mem_singleton.mp hmem
  | expired harmed =>
      obtain heq | hmem := List.mem_cons.mp hmem
      · cases heq
      · exact Or.inl ⟨harmed, @offerSynth_received (dev.expired ctx) _ _ _ _ _ hmem⟩
  | recovered hqueued =>
      obtain heq | hmem := List.mem_cons.mp hmem
      · cases heq
      · exact Or.inl ⟨hqueued, @offerSynth_received (dev.recovering ctx) _ _ _ _ _ hmem⟩

theorem Called.queued (h : Called dev ctx op dev' trace) {count : U32}
    (hmem : .recoveryQueued count ∈ trace) : op = .recoveryWork := by
  have hsynth : ∀ {dev : SafetyCoproDev} {s : Synth},
      .recoveryQueued count ∉ (dev.offerSynth ctx s).2 := by
    intro dev s hmem
    obtain ⟨-, seq, type, qlen, heq⟩ | ⟨seq, type, heq⟩ := mem_offerSynth hmem <;> cases heq
  cases h with
  | kept hop htrace =>
      obtain ⟨events, heq⟩ := htrace.mem hmem
      cases heq
  | recovered hqueued => rfl
  | injected faultType => exact absurd hmem hsynth
  | expired harmed =>
      obtain heq | hmem := List.mem_cons.mp hmem
      · cases heq
      · exact absurd hmem hsynth
  | refused hop hvres => cases hmem
  | read count nonblock fault => cases hmem
  | popped fault => cases hmem
  | reset => cases hmem
  | timeoutSet hms => cases hmem
  | forced => cases hmem
  | _ => cases List.mem_singleton.mp hmem

theorem PutsForeign.not_idle (h : dev.PutsForeign op) : ¬ dev.Idle op := by
  intro hidle
  cases op with
  | write ubuf fault => exact hidle h.1
  | read count nonblock fault => exact h
  | poll => exact h
  | ioctl cmd =>
      cases cmd with
      | injectFault faultType => exact h.1 hidle
      | pushRxFrame io =>
          cases io with
          | none => exact h
          | some frame => exact hidle frame rfl h.1
      | _ => exact h
  | hbTimer =>
      rw [Idle, h.1] at hidle
      cases hidle
  | recoveryWork =>
      rw [Idle, h.1] at hidle
      cases hidle

theorem PutsForeign.not_malformed (h : dev.PutsForeign op) : ¬ Malformed op := by
  intro hbad
  cases op with
  | write ubuf fault => exact hbad h.1
  | ioctl cmd =>
      cases cmd with
      | pushRxFrame io =>
          cases io with
          | none => exact h
          | some frame => exact hbad h.1
      | _ => exact hbad
  | _ => exact hbad

/-- A foreign frame is the last thing its call traces. -/
theorem Called.foreign (h : Called dev ctx op dev' trace) (hforeign : dev.PutsForeign op) :
    ∃ seq type qlen,
      trace = [.frameReceived seq type qlen] ∧ op ≠ .recoveryWork ∨
      (∃ timeoutMs count, trace = [.timeoutDetected timeoutMs count,
        .frameReceived seq type qlen] ∧ op ≠ .recoveryWork) ∨
      ∃ count, trace = [.recoveryQueued count, .frameReceived seq type qlen] := by
  cases h with
  | kept hop htrace => exact absurd hop hforeign.not_idle
  | refused hop hvres => exact absurd hop hforeign.not_malformed
  | written hwritable hroom => exact ⟨_, _, _, Or.inl ⟨rfl, nofun⟩⟩
  | writeDropped seq' type' hfull => exact absurd hforeign.2 (Nat.not_lt.mpr hfull)
  | read count nonblock fault => cases hforeign
  | popped fault => cases hforeign
  | reset => cases hforeign
  | timeoutSet hms => cases hforeign
  | forced => cases hforeign
  | injected faultType =>
      exact ⟨_, _, _, Or.inl ⟨@offerSynth_room (dev.injected ctx faultType) _ _ hforeign.2, nofun⟩⟩
  | beat hbeat hroom => exact ⟨_, _, _, Or.inl ⟨rfl, nofun⟩⟩
  | pushed hframe hbeat event hroom => exact ⟨_, _, _, Or.inl ⟨rfl, nofun⟩⟩
  | pushDropped hframe seq' type' hfull => exact absurd hforeign.2.2 (Nat.not_lt.mpr hfull)
  | expired harmed =>
      rw [@offerSynth_room (dev.expired ctx) _ _ hforeign.2]
      exact ⟨_, _, _, Or.inr (Or.inl ⟨_, _, rfl, nofun⟩)⟩
  | recovered hqueued =>
      rw [@offerSynth_room (dev.recovering ctx) _ _ hforeign.2]
      exact ⟨_, _, _, Or.inr (Or.inr ⟨_, rfl⟩)⟩

end SafetyCoproDev

namespace TracedDevice

/-- A foreign frame is traced while a restored heartbeat is awaited, or by the
recovery work itself. -/
def Spoils (s : TracedDevice) (c : TracedCall) : Prop :=
  s.dev.PutsForeign c.op ∧ (s.bpf.recoveryPending ≠ 0 ∨ c.op = .recoveryWork)

instance (s : TracedDevice) (c : TracedCall) : Decidable (s.Spoils c) :=
  inferInstanceAs (Decidable (_ ∧ _))

theorem genuine_of_not_spoils {s : TracedDevice} {c : TracedCall} (h : ¬ s.Spoils c) :
    s.Genuine c := by
  intro ev hmem hkind
  have hcalled := @SafetyCoproDev.call_called s.dev c.ctx c.op
  obtain ⟨⟨seq, type, qlen, hreceived, haux⟩, hpending⟩ := SafetyTrace.restored_source hmem hkind
  obtain hforeign | ⟨frame, hop, htype, hrx, rfl⟩ := hcalled.received hreceived
  · refine absurd ⟨hforeign, hpending.imp_right fun hqueued => ?_⟩ h
    obtain ⟨count, hqueued⟩ := hqueued
    exact hcalled.queued hqueued
  · exact ⟨frame, hop, htype, hrx, haux⟩

/-- A foreign frame is taken for the restored heartbeat. -/
theorem not_genuine_of_spoils {s : TracedDevice} {c : TracedCall} (h : s.Spoils c)
    (hroom : ∀ e, (c.probes e).reserved = true) : ¬ s.Genuine c := by
  obtain ⟨hforeign, hpending⟩ := h
  have hcalled := @SafetyCoproDev.call_called s.dev c.ctx c.op
  have hrestored : ∃ ev ∈ (s.step c).2, ev.kind = .heartbeatRestored := by
    rw [step]
    dsimp only
    obtain ⟨seq, type, qlen, ⟨htrace, hop⟩ | ⟨timeoutMs, count, htrace, hop⟩ | ⟨count, htrace⟩⟩ :=
      hcalled.foreign hforeign
    · have hset := hpending.resolve_right hop
      rw [htrace]
      exact ⟨_, List.mem_append_left _ (SafetyTrace.restored_of_received (hroom _) hset ..), rfl⟩
    · have hset := hpending.resolve_right hop
      rw [htrace]
      refine ⟨_, List.mem_append_right _ (List.mem_append_left _
        (SafetyTrace.restored_of_received (hroom _) ?_ ..)), rfl⟩
      exact hset
    · rw [htrace]
      refine ⟨_, List.mem_append_right _ (List.mem_append_left _
        (SafetyTrace.restored_of_received (hroom _) ?_ ..)), rfl⟩
      exact (by decide : (1 : U32) ≠ 0)
  intro hgenuine
  obtain ⟨ev, hmem, hkind⟩ := hrestored
  obtain ⟨frame, hop, htype, -⟩ := hgenuine ev hmem hkind
  rw [hop] at hforeign
  exact hforeign.2.1 htype

/-- The timeline of a call continues the one before it. -/
theorem recorded_step {timeline : List TimelineEvent} {s : TracedDevice} {c : TracedCall}
    (h : SafetyTrace.Recorded timeline s.bpf) (hroom : ∀ e, (c.probes e).reserved = true) :
    SafetyTrace.Recorded (timeline ++ (s.step c).2) (s.step c).1.bpf := by
  refine Machine.outputs_extend (P := SafetyTrace.Recorded)
    (G := fun _ input => input.2.reserved = true) (fun _ _ _ hrec hres => hrec.handle hres) h ?_
  refine Machine.along_of_forall fun input hinput => ?_
  obtain ⟨e, -, rfl⟩ := List.mem_map.mp hinput
  exact hroom e

/-- While the ring buffer has room, every restored heartbeat is a heartbeat that
the daemon pushes behind the recovery it answers, exactly as long as no foreign
frame is traced while one is awaited. -/
theorem restored_genuine_iff (dev : SafetyCoproDev) {calls : List TracedCall}
    (hroom : ∀ c ∈ calls, ∀ e, (c.probes e).reserved = true) :
    (Machine.Along step Genuine { dev } calls ∧
      SafetyTrace.Paired (Machine.outputs step { dev } calls)) ↔
      Machine.Along step (fun s c => ¬ s.Spoils c) { dev } calls := by
  have hiff : Machine.Along step Genuine { dev } calls ↔
      Machine.Along step (fun s c => ¬ s.Spoils c) { dev } calls := by
    refine Machine.along_congr (P := fun _ => True) (fun _ _ _ => trivial) trivial calls ?_
    intro s c hc _
    constructor
    · intro hgenuine hspoils
      exact not_genuine_of_spoils hspoils (hroom c hc) hgenuine
    · exact genuine_of_not_spoils
  have hrun := Machine.outputs_of_along
    (P := fun timeline (s : TracedDevice) => SafetyTrace.Recorded timeline s.bpf)
    (G := fun _ (c : TracedCall) => ∀ e, (c.probes e).reserved = true)
    (fun _ _ _ h hres => recorded_step h hres) (s := { dev }) SafetyTrace.recorded_init
    (Machine.along_of_forall hroom)
  rw [hiff]
  exact and_iff_left hrun.paired

def tracedCalls (ops : List DevOp) : List TracedCall := ops.map fun op => { op }

theorem tracedCalls_room (ops : List DevOp) :
    ∀ c ∈ tracedCalls ops, ∀ e, (c.probes e).reserved = true := by
  intro c hc e
  obtain ⟨op, -, rfl⟩ := List.mem_map.mp hc
  rfl

def pushHeartbeat (seq : U16) : DevOp :=
  .ioctl (.pushRxFrame (some (packFrame safetyFrameHeartbeat seq 0 [])))

/-- The report of the recovery finds a queue of two full, and the next frame in
it is a heartbeat. -/
def recoveryOnFullQueue : List DevOp :=
  [pushHeartbeat 1, pushHeartbeat 2, .ioctl .forceRecovery, .recoveryWork, .read 1024 true false,
    pushHeartbeat 3]

theorem restored_genuine_full_queue :
    ∃ dev, safetyCoproInit 350 2 1 = some dev ∧
      (Machine.outputs step { dev } (tracedCalls recoveryOnFullQueue)).map
        (fun ev => (ev.kind, ev.aux)) = [(.recovery, 1), (.heartbeatRestored, 3)] ∧
      Machine.Along step Genuine { dev } (tracedCalls recoveryOnFullQueue) :=
  ⟨_, rfl, by decide +kernel,
    ((restored_genuine_iff _ (tracedCalls_room _)).mpr (by decide +kernel)).1⟩

/-- A recovery with no frame from the daemon at all: its own report counts as
the restored heartbeat. -/
theorem report_restores_heartbeat :
    ∃ dev, safetyCoproInit 350 64 1 = some dev ∧
      (Machine.outputs step { dev } (tracedCalls [.ioctl .forceRecovery, .recoveryWork])).map
        (fun ev => (ev.kind, ev.aux)) = [(.recovery, 1), (.heartbeatRestored, 0)] ∧
      ¬ Machine.Along step Genuine { dev }
        (tracedCalls [.ioctl .forceRecovery, .recoveryWork]) :=
  ⟨_, rfl, by decide +kernel,
    fun h => not_genuine_of_spoils (by decide +kernel) (fun _ => rfl) h.2.1⟩

end TracedDevice

end SafetyCopro
