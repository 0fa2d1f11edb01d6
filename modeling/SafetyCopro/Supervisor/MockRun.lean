import SafetyCopro.Supervisor.EventLoop

/-!
Mock mode, `run_mock` in `main.cpp`: the frames of a file, one after the other,
with the timestamps of the heartbeats as the clock. It repeats the decisions of
the event loop in code of its own, and makes up the recovery.
-/

namespace SafetyCopro

/-- The local variables of `run_mock`. -/
structure Mock where
  fsm : HealthState := .booting
  dup : DuplicateDetector := {}
  haveLastHb : Bool := false
  lastHbTs : U32 := 0
  inRecovery : Bool := false
  txSeq : U16 := 0
  nackCount : Nat := 0
deriving DecidableEq

namespace Mock

/-- A frame that failed validation. Its key is recorded all the same. -/
def rejectFrame (m : Mock) (f : ParsedFrame) : Mock × List Effect :=
  ({ m with nackCount := m.nackCount + 1, dup := (m.dup.isDuplicate f.type f.seq).2 },
    [.log
      { tsMs := f.ts, kind := .checksumError, frameType := frameTypeName f.type
        seq := f.seqInt
        detail := Text.lit "validate_result=" ++ Text.decimal f.validateResult.code },
     .log
      { tsMs := f.ts, kind := .txNack, frameType := Text.lit "NACK", seq := f.seqInt
        detail := Text.lit "nack #" ++ Text.decimal (m.nackCount + 1 : Nat) }])

/-- The line of an accepted frame, which names the fault of a `FAULT_EVENT` but
not its severity. -/
def rxFrameEvent (f : ParsedFrame) : LogEvent :=
  { tsMs := f.ts, kind := .rxFrame, frameType := frameTypeName f.type, seq := f.seqInt
    fault :=
      if f.type = safetyFrameFaultEvent ∧ 8 ≤ f.payload.length then faultTypeName f.faultType
      else [] }

def timeoutEvent (hbTimeoutMs gap : U32) (f : ParsedFrame) : LogEvent :=
  { tsMs := f.ts, kind := .timeout, frameType := Text.lit "HEARTBEAT"
    detail := Text.lit "gap=" ++ Text.decimal (gap.toNat : Nat) ++ Text.lit "ms > " ++
      Text.decimal (hbTimeoutMs.toNat : Nat) ++ Text.lit "ms" }

def requestRecoveryEvent (m : Mock) (f : ParsedFrame) : LogEvent :=
  { tsMs := f.ts, kind := .txCommand, frameType := Text.lit "COMMAND"
    seq := m.txSeq.setWidth 32, detail := Text.lit "REQUEST_RECOVERY" }

def recoverySuccessEvent (f : ParsedFrame) : LogEvent :=
  { tsMs := f.ts, kind := .recoveryResult, detail := Text.lit "RECOVERY_SUCCESS" }

/-- More than `hb_timeout_ms` since the last heartbeat, in the arithmetic of
`uint32_t`. -/
def Gap (hbTimeoutMs : U32) (m : Mock) (f : ParsedFrame) : Prop :=
  m.haveLastHb ∧ hbTimeoutMs < f.tsMs - m.lastHbTs

instance (hbTimeoutMs : U32) (m : Mock) (f : ParsedFrame) : Decidable (m.Gap hbTimeoutMs f) :=
  inferInstanceAs (Decidable (_ ∧ _))

/-- The check of the gap, with the timeout and the recovery it makes up. -/
def checkGap (hbTimeoutMs : U32) (m : Mock) (f : ParsedFrame) : Mock × List Effect :=
  if m.Gap hbTimeoutMs f then
    let r := m.fsm.apply .heartbeatTimeout
    let effs := [.log (timeoutEvent hbTimeoutMs (f.tsMs - m.lastHbTs) f), .applied r]
    if r.valid ∧ m.fsm = .healthy then
      let r' := r.toState.apply .recoverySent
      ({ m with fsm := r'.toState, txSeq := m.txSeq + 1, inRecovery := true },
        effs ++ [.log (m.requestRecoveryEvent f), .applied r'])
    else ({ m with fsm := r.toState }, effs)
  else (m, [])

def beat (m : Mock) (f : ParsedFrame) : Mock × List Effect :=
  let r := m.fsm.apply (EventLoop.heartbeatEvent m.fsm)
  let success := m.inRecovery ∧ m.fsm = .recovering
  ({ m with
      fsm := r.toState, haveLastHb := true, lastHbTs := f.tsMs
      inRecovery := if success then false else m.inRecovery },
    [.applied r] ++
    (if success then [.log (recoverySuccessEvent f)] else []) ++
    [.log (EventLoop.txAckEvent f)])

def onHeartbeat (hbTimeoutMs : U32) (m : Mock) (f : ParsedFrame) : Mock × List Effect :=
  let (m, effs) := m.checkGap hbTimeoutMs f
  ((m.beat f).1, effs ++ (m.beat f).2)

/-- A fault that is not critical does nothing here. -/
def onFaultEvent (m : Mock) (f : ParsedFrame) : Mock × List Effect :=
  if 2 ≤ f.severity then
    let r := m.fsm.apply .criticalFault
    ({ m with fsm := r.toState }, [.applied r])
  else (m, [])

def dispatch (hbTimeoutMs : U32) (m : Mock) (f : ParsedFrame) : Mock × List Effect :=
  if f.type = safetyFrameHeartbeat then m.onHeartbeat hbTimeoutMs f
  else if f.type = safetyFrameFaultEvent then m.onFaultEvent f
  else (m, [])

/-- One turn of the loop over the frames. -/
def processFrame (hbTimeoutMs : U32) (m : Mock) (f : ParsedFrame) : Mock × List Effect :=
  if ¬ f.ok then m.rejectFrame f
  else if (m.dup.isDuplicate f.type f.seq).1 then (m, [.log (EventLoop.duplicateEvent f)])
  else
    let (m, effs) := { m with dup := (m.dup.isDuplicate f.type f.seq).2 }.dispatch hbTimeoutMs f
    (m, .log (rxFrameEvent f) :: effs)

end Mock

def runMock (hbTimeoutMs : U32) (data : List U8) : Mock × List Effect :=
  let frames := (FrameAssembler.feed [] data).1
  (Machine.after (Mock.processFrame hbTimeoutMs) {} frames,
    Machine.outputs (Mock.processFrame hbTimeoutMs) {} frames)

/-! ### What a frame does -/

namespace Mock
variable (hbTimeoutMs : U32)

/-- The frame validates and its key is new. -/
def Accepts (m : Mock) (f : ParsedFrame) : Prop := f.ok ∧ f.key ∉ m.dup.seen

instance (m : Mock) (f : ParsedFrame) : Decidable (m.Accepts f) :=
  inferInstanceAs (Decidable (_ ∧ _))

def record (m : Mock) (f : ParsedFrame) : Mock := { m with dup := ⟨f.key :: m.dup.seen⟩ }

theorem processFrame_of_not_ok {m : Mock} {f : ParsedFrame} (h : ¬ f.ok) :
    m.processFrame hbTimeoutMs f = m.rejectFrame f := by
  rw [processFrame, if_pos h]

theorem processFrame_of_seen {m : Mock} {f : ParsedFrame} (hok : f.ok)
    (h : f.key ∈ m.dup.seen) :
    m.processFrame hbTimeoutMs f = (m, [.log (EventLoop.duplicateEvent f)]) := by
  have hdup := (m.dup.isDuplicate_fst f.type f.seq).mpr h
  rw [processFrame, if_neg (not_not_intro hok), if_pos hdup]

theorem processFrame_of_accepts {m : Mock} {f : ParsedFrame} (h : m.Accepts f) :
    m.processFrame hbTimeoutMs f =
      (((m.record f).dispatch hbTimeoutMs f).1,
        .log (rxFrameEvent f) :: ((m.record f).dispatch hbTimeoutMs f).2) := by
  have hdup : m.dup.isDuplicate f.type f.seq = (false, ⟨f.key :: m.dup.seen⟩) :=
    if_neg h.2
  rw [processFrame, if_neg (not_not_intro h.1), hdup]
  rfl

theorem frame_cases (m : Mock) (f : ParsedFrame) :
    ¬ f.ok ∨ (f.ok ∧ f.key ∈ m.dup.seen) ∨ m.Accepts f := m.dup.frame_cases f

@[simp] theorem checkGap_dup (m : Mock) (f : ParsedFrame) :
    (m.checkGap hbTimeoutMs f).1.dup = m.dup := by
  unfold checkGap
  split
  · dsimp only
    split <;> rfl
  · rfl

@[simp] theorem dispatch_dup (m : Mock) (f : ParsedFrame) :
    (m.dispatch hbTimeoutMs f).1.dup = m.dup := by
  unfold dispatch onFaultEvent
  split
  · exact checkGap_dup hbTimeoutMs m f
  split
  · split <;> rfl
  · rfl

theorem mem_processFrame_seen (m : Mock) (f : ParsedFrame) (k : U8 × U16) :
    k ∈ (m.processFrame hbTimeoutMs f).1.dup.seen ↔ k ∈ m.dup.seen ∨ k = f.key := by
  obtain hok | ⟨hok, hseen⟩ | hacc := m.frame_cases f
  · rw [processFrame_of_not_ok _ hok]
    exact (m.dup.mem_isDuplicate_seen f.type f.seq k).trans or_comm
  · rw [processFrame_of_seen _ hok hseen]
    refine ⟨Or.inl, fun h => h.elim id fun h => ?_⟩
    rw [h]
    exact hseen
  · rw [processFrame_of_accepts _ hacc]
    simp only [dispatch_dup, record, List.mem_cons]
    exact or_comm

/-! ### The lines it writes -/

theorem log_mem_checkGap {m : Mock} {f : ParsedFrame} {e : LogEvent}
    (h : .log e ∈ (m.checkGap hbTimeoutMs f).2) :
    e = timeoutEvent hbTimeoutMs (f.tsMs - m.lastHbTs) f ∨ e = m.requestRecoveryEvent f := by
  unfold checkGap at h
  dsimp only at h
  split at h
  · split at h
    · simpa using h
    · exact Or.inl (by simpa using h)
  · cases h

theorem log_mem_beat {m : Mock} {f : ParsedFrame} {e : LogEvent} (h : .log e ∈ (m.beat f).2) :
    e = recoverySuccessEvent f ∨ e = EventLoop.txAckEvent f := by
  unfold beat at h
  dsimp only at h
  split at h
  · simpa using h
  · exact Or.inr (by simpa using h)

theorem log_mem_dispatch {m : Mock} {f : ParsedFrame} {e : LogEvent}
    (h : .log e ∈ (m.dispatch hbTimeoutMs f).2) :
    e = timeoutEvent hbTimeoutMs (f.tsMs - m.lastHbTs) f ∨ e = m.requestRecoveryEvent f ∨
      e = recoverySuccessEvent f ∨ e = EventLoop.txAckEvent f := by
  unfold dispatch onFaultEvent at h
  split at h
  · obtain h | h := List.mem_append.mp h
    · obtain rfl | rfl := log_mem_checkGap hbTimeoutMs h
      · exact Or.inl rfl
      · exact Or.inr (Or.inl rfl)
    · exact Or.inr (Or.inr (log_mem_beat h))
  · repeat' split at h
    all_goals simp at h

/-! ### Heartbeats -/

def Beat (m : Mock) (f : ParsedFrame) : Prop := m.Accepts f ∧ f.type = safetyFrameHeartbeat

/-- An accepted heartbeat that comes too late. -/
def Late (m : Mock) (f : ParsedFrame) : Prop := m.Beat f ∧ m.Gap hbTimeoutMs f

instance (m : Mock) (f : ParsedFrame) : Decidable (m.Beat f) :=
  inferInstanceAs (Decidable (_ ∧ _))

instance (m : Mock) (f : ParsedFrame) : Decidable (m.Late hbTimeoutMs f) :=
  inferInstanceAs (Decidable (_ ∧ _))

def CriticalFault (m : Mock) (f : ParsedFrame) : Prop :=
  m.Accepts f ∧ f.type = safetyFrameFaultEvent ∧ 2 ≤ f.severity

instance (m : Mock) (f : ParsedFrame) : Decidable (m.CriticalFault f) :=
  inferInstanceAs (Decidable (_ ∧ _ ∧ _))

theorem onHeartbeat_of_gap {m : Mock} {f : ParsedFrame} (hfsm : m.fsm = .healthy)
    (hgap : m.Gap hbTimeoutMs f) :
    (m.onHeartbeat hbTimeoutMs f).1.fsm = .healthy ∧
      (m.onHeartbeat hbTimeoutMs f).2 =
        [.log (timeoutEvent hbTimeoutMs (f.tsMs - m.lastHbTs) f),
         .applied (HealthState.healthy.apply .heartbeatTimeout),
         .log (m.requestRecoveryEvent f),
         .applied (HealthState.degraded.apply .recoverySent),
         .applied (HealthState.recovering.apply .heartbeatRestored),
         .log (recoverySuccessEvent f),
         .log (EventLoop.txAckEvent f)] := by
  have hcheck : m.checkGap hbTimeoutMs f =
      ({ m with fsm := .recovering, txSeq := m.txSeq + 1, inRecovery := true },
        [.log (timeoutEvent hbTimeoutMs (f.tsMs - m.lastHbTs) f),
         .applied (HealthState.healthy.apply .heartbeatTimeout),
         .log (m.requestRecoveryEvent f),
         .applied (HealthState.degraded.apply .recoverySent)]) := by
    rw [checkGap, if_pos hgap, hfsm]
    rfl
  rw [onHeartbeat, hcheck]
  exact ⟨rfl, rfl⟩

theorem onHeartbeat_of_not_gap {m : Mock} {f : ParsedFrame} (hfsm : m.fsm ≠ .recovering)
    (hgap : ¬ m.Gap hbTimeoutMs f) :
    (m.onHeartbeat hbTimeoutMs f).1.fsm = m.fsm.target .heartbeatOk ∧
      (m.onHeartbeat hbTimeoutMs f).2 =
        [.applied (m.fsm.apply .heartbeatOk), .log (EventLoop.txAckEvent f)] := by
  have hcheck : m.checkGap hbTimeoutMs f = (m, []) := by rw [checkGap, if_neg hgap]
  have hevent : EventLoop.heartbeatEvent m.fsm = .heartbeatOk := if_neg hfsm
  have hsuccess : ¬ (m.inRecovery ∧ m.fsm = .recovering) := fun h => hfsm h.2
  rw [onHeartbeat, hcheck]
  simp only [beat, hevent, if_neg hsuccess]
  exact ⟨rfl, rfl⟩

end Mock

end SafetyCopro
