import SafetyCopro.Firmware.Tasks

/-!
What the operations of a task are, what they leave to do, and what they write.
Of the flags, the command handler writes any and the fault monitor safe mode;
the other tasks only read them.
-/

namespace SafetyCopro

inductive FirmwareInput
  | task (t : Task) (nowMs : U32)
  | receive (bytes : List U8)
deriving DecidableEq, Repr

/-- A step of one of the tasks, or of the receive interrupt. -/
def Firmware.step (fw : Firmware) : FirmwareInput → Firmware × List FirmwareEvent
  | .task t nowMs => fw.run t nowMs
  | .receive bytes => (fw.receive bytes, [])

def injectCritical : FirmwareInput :=
  .receive (buildCommand 1 0 safetyCmdInjectFault safetyFaultCritical 0 0)

def requestRecovery : FirmwareInput := .receive (buildCommand 2 0 safetyCmdRequestRecovery 0 0 0)

/-- The command that the handler finds in a frame. -/
def SafetyRxFrame.command (frame : SafetyRxFrame) : Option U8 :=
  if frame.hdr.type = safetyFrameCommand ∧ frame.hdr.payloadLength = 8 then
    some (byteAt frame.payload 0)
  else none

def SafetyRxFrame.IsRecovery (frame : SafetyRxFrame) : Prop :=
  frame.command = some safetyCmdRequestRecovery ∨ frame.command = some safetyCmdResetFaultState

def SafetyRxFrame.IsInjection (frame : SafetyRxFrame) : Prop :=
  frame.command = some safetyCmdInjectFault ∨ frame.command = some safetyCmdEnterSafeMode

instance (frame : SafetyRxFrame) : Decidable frame.IsRecovery :=
  inferInstanceAs (Decidable (_ ∨ _))

instance (frame : SafetyRxFrame) : Decidable frame.IsInjection :=
  inferInstanceAs (Decidable (_ ∨ _))

theorem SafetyRxFrame.IsRecovery.not_injection {frame : SafetyRxFrame} (h : frame.IsRecovery) :
    ¬ frame.IsInjection := by
  obtain h | h := h <;> rw [IsInjection, h] <;> decide

/-! ### The operations of the tasks -/

/-- The tasks whose loops hold the operation. -/
def TaskOp.Of : TaskOp → Task → Prop
  | .beat _, t => t = .heartbeat
  | .sample, t => t = .telemetry
  | .scan _, t => t = .faultMonitor
  | .emitFault _ _ _, t => t = .faultMonitor
  | .store flag value, t =>
      t = .commandHandler ∨ t = .faultMonitor ∧ flag = .inSafeMode ∧ value = true
  | .replyStatus, t => t = .commandHandler
  | .reportRecovery, t => t = .commandHandler
  | .clearFaultCount, t => t = .commandHandler
  | .send _ _, _ => True

def TaskOp.IsStore : TaskOp → Prop
  | .store _ _ => True
  | _ => False

def TaskOp.IsAck : TaskOp → Prop
  | .send type _ => type = safetyFrameAck
  | _ => False

/-- Nothing follows an `ACK`, and no flag is written once safe mode is cleared. -/
def TaskOp.Before (op op' : TaskOp) : Prop :=
  ¬ op.IsAck ∧ (op = .store .inSafeMode false → ¬ op'.IsStore)

/-- What the handler does with a frame, and with which command. -/
inductive Handled (frame : SafetyRxFrame) : List TaskOp → Prop
  | refused (reason : U8) (hnot : ¬ frame.IsRecovery) :
      Handled frame [sendNack frame.hdr.sequenceId reason]
  | status (hcommand : frame.command = some safetyCmdGetStatus) :
      Handled frame [.replyStatus, sendAck frame.hdr.sequenceId]
  | injected (flag : Flag) (hcommand : frame.command = some safetyCmdInjectFault)
      (hflag : applyInject (byteAt frame.payload 1) = some (.store flag true)) :
      Handled frame [.store flag true, sendAck frame.hdr.sequenceId]
  | safeMode (hcommand : frame.command = some safetyCmdEnterSafeMode) :
      Handled frame [.store .inSafeMode true, sendAck frame.hdr.sequenceId]
  | reset (hcommand : frame.command = some safetyCmdResetFaultState) :
      Handled frame (clearAllInjects ++
        [.clearFaultCount, .store .inSafeMode false, sendAck frame.hdr.sequenceId])
  | recovery (hcommand : frame.command = some safetyCmdRequestRecovery) :
      Handled frame (clearAllInjects ++
        [.store .inSafeMode false, .reportRecovery, sendAck frame.hdr.sequenceId])

theorem applyInject_store {faultType : U8} {op : TaskOp} (h : applyInject faultType = some op) :
    ∃ flag, op = .store flag true := by
  unfold applyInject at h
  repeat' split at h
  · exact ⟨_, (Option.some.inj h).symm⟩
  · exact ⟨_, (Option.some.inj h).symm⟩
  · exact ⟨_, (Option.some.inj h).symm⟩
  · cases h

theorem handleCommand_handled {frame : SafetyRxFrame} (htype : frame.hdr.type = safetyFrameCommand)
    (hlen : frame.hdr.payloadLength = 8) : Handled frame (handleCommand frame) := by
  have hcommand : frame.command = some (byteAt frame.payload 0) := if_pos ⟨htype, hlen⟩
  rw [handleCommand]
  dsimp only
  rw [if_neg (not_not.mpr hlen)]
  generalize byteAt frame.payload 0 = command at hcommand ⊢
  split
  · rename_i h
    exact .status (h ▸ hcommand)
  split
  · rename_i h
    rw [h] at hcommand
    split
    · refine .refused _ ?_
      rw [SafetyRxFrame.IsRecovery, hcommand]
      decide
    · rename_i op hop
      obtain ⟨flag, rfl⟩ := applyInject_store hop
      exact .injected flag hcommand hop
  split
  · rename_i h
    exact .reset (h ▸ hcommand)
  split
  · rename_i h
    exact .safeMode (h ▸ hcommand)
  split
  · rename_i h
    exact .recovery (h ▸ hcommand)
  · rename_i hreset _ hrecovery
    refine .refused _ ?_
    rintro (h | h)
    · exact hrecovery (Option.some.inj (hcommand.symm.trans h))
    · exact hreset (Option.some.inj (hcommand.symm.trans h))

theorem handleFrame_handled (frame : SafetyRxFrame) : Handled frame (handleFrame frame) := by
  have hnot : frame.command = none → ¬ frame.IsRecovery := by
    rintro hnone (h | h) <;> rw [hnone] at h <;> cases h
  rw [handleFrame]
  by_cases htype : frame.hdr.type = safetyFrameCommand
  · rw [if_pos htype]
    by_cases hlen : frame.hdr.payloadLength = 8
    · exact handleCommand_handled htype hlen
    · rw [handleCommand, if_pos hlen]
      exact .refused _ (hnot (if_neg fun h => hlen h.2))
  · rw [if_neg htype]
    exact .refused _ (hnot (if_neg fun h => htype h.1))

variable {frame : SafetyRxFrame} {ops : List TaskOp}

theorem Handled.of (h : Handled frame ops) : ∀ op ∈ ops, op.Of .commandHandler := by
  cases h <;> simp [clearAllInjects, TaskOp.Of, sendAck, sendNack]

theorem Handled.ordered (h : Handled frame ops) : ops.Pairwise TaskOp.Before := by
  cases h <;>
    simp [clearAllInjects, TaskOp.Before, TaskOp.IsAck, TaskOp.IsStore, sendAck]

theorem Handled.injection (h : Handled frame ops) {flag : Flag}
    (hstore : .store flag true ∈ ops) : frame.IsInjection := by
  cases h with
  | injected flag' hcommand => exact Or.inl hcommand
  | safeMode hcommand => exact Or.inr hcommand
  | _ => simp [clearAllInjects, sendAck, sendNack] at hstore

/-- A recovery clears every flag. -/
theorem Handled.clears (h : Handled frame ops) (hrecovery : frame.IsRecovery) (flag : Flag) :
    .store flag false ∈ ops := by
  have hnot : ∀ {command : U8}, frame.command = some command →
      command = safetyCmdRequestRecovery ∨ command = safetyCmdResetFaultState := by
    intro command hcommand
    rwa [SafetyRxFrame.IsRecovery, hcommand, Option.some_inj, Option.some_inj] at hrecovery
  cases h with
  | refused reason hrefused => exact absurd hrecovery hrefused
  | status hcommand => exact absurd (hnot hcommand) (by decide)
  | injected flag' hcommand => exact absurd (hnot hcommand) (by decide)
  | safeMode hcommand => exact absurd (hnot hcommand) (by decide)
  | reset hcommand => cases flag <;> simp [clearAllInjects]
  | recovery hcommand => cases flag <;> simp [clearAllInjects]

def FirmwareEvent.isAck : FirmwareEvent → Bool
  | .sendFrame type _ => type == safetyFrameAck
  | .pollOut _ => false

/-! ### Steps, seen from the flags -/

def SafetyFaultState.get (s : SafetyFaultState) : Flag → Bool
  | .injectTaskHang => s.injectTaskHang
  | .injectChecksumError => s.injectChecksumError
  | .injectCriticalFault => s.injectCriticalFault
  | .inSafeMode => s.inSafeMode

@[simp] theorem SafetyFaultState.get_store (s : SafetyFaultState) (value : Bool)
    (flag flag' : Flag) :
    (s.store value flag).get flag' = if flag' = flag then value else s.get flag' := by
  cases flag <;> cases flag' <;> rfl

/-- The flag behind the operation. -/
def TaskOp.stored (flag : Flag) (value : Bool) : TaskOp → Bool
  | .store flag' value' => if flag = flag' then value' else value
  | _ => value

theorem TaskOp.stored_cases (op : TaskOp) (flag : Flag) (value : Bool) :
    op.stored flag value = value ∨ op = .store flag (op.stored flag value) := by
  cases op with
  | store flag' value' =>
      by_cases h : flag = flag'
      · exact Or.inr (by rw [stored, if_pos h, h])
      · exact Or.inl (if_neg h)
  | _ => exact Or.inl rfl

namespace Firmware

variable {fw : Firmware} {t : Task} {nowMs : U32}

theorem exec_get (op : TaskOp) (flag : Flag) :
    (fw.exec t nowMs op).1.faults.get flag = op.stored flag (fw.faults.get flag) := by
  cases op with
  | store flag' value => exact SafetyFaultState.get_store ..
  | beat hang =>
      rw [exec]
      split <;> rfl
  | send type payload =>
      rw [exec]
      split <;> rfl
  | _ => cases flag <;> rfl

theorem exec_of {op op' : TaskOp} (hop : op.Of t) (h : op' ∈ (fw.exec t nowMs op).2.1) :
    op'.Of t := by
  cases op with
  | beat hang =>
      rw [exec] at h
      split at h
      · obtain rfl := List.mem_singleton.mp h
        trivial
      · cases h
  | scan checksum =>
      simp only [exec, List.mem_append, List.mem_ite_nil_right, List.mem_cons, List.not_mem_nil,
        or_false] at h
      obtain ⟨-, rfl⟩ | ⟨-, rfl | rfl⟩ := h
      · exact hop
      · exact hop
      · exact Or.inr ⟨hop, rfl, rfl⟩
  | send type payload =>
      rw [exec] at h
      split at h <;> cases h
  | store flag value => cases h
  | clearFaultCount => cases h
  | _ =>
      obtain rfl := List.mem_singleton.mp h
      trivial

/-- Only a scan that finds the critical flag set goes on to set safe mode. -/
theorem store_mem_exec {op : TaskOp} {flag : Flag} {value : Bool}
    (h : .store flag value ∈ (fw.exec t nowMs op).2.1) :
    (∃ checksum, op = .scan checksum) ∧ fw.faults.get .injectCriticalFault = true := by
  cases op with
  | scan checksum =>
      simp only [exec, List.mem_append, List.mem_ite_nil_right, List.mem_cons, List.not_mem_nil,
        or_false, reduceCtorEq, false_or, and_false, Bool.and_eq_true] at h
      exact ⟨⟨checksum, rfl⟩, h.1.1⟩
  | beat hang =>
      rw [exec] at h
      split at h
      · cases List.mem_singleton.mp h
      · cases h
  | send type payload =>
      rw [exec] at h
      split at h <;> cases h
  | store flag' value' => cases h
  | clearFaultCount => cases h
  | _ => cases List.mem_singleton.mp h

/-- What is left of an operation keeps the order. -/
theorem exec_ordered {op : TaskOp} {rest : List TaskOp} (hop : op.Of .commandHandler)
    (h : (op :: rest).Pairwise TaskOp.Before) :
    ((fw.exec t nowMs op).2.1 ++ rest).Pairwise TaskOp.Before := by
  obtain ⟨-, hrest⟩ := List.pairwise_cons.mp h
  have hsend : ∀ {type : U8} {payload : List U8}, type ≠ safetyFrameAck →
      (TaskOp.send type payload :: rest).Pairwise TaskOp.Before := by
    intro type payload htype
    exact List.pairwise_cons.mpr ⟨fun op' _ => ⟨htype, nofun⟩, hrest⟩
  cases op with
  | beat hang => cases hop
  | sample => cases hop
  | scan checksum => cases hop
  | emitFault faultType severity detailCode => cases hop
  | replyStatus => exact hsend (by decide)
  | reportRecovery => exact hsend (by decide)
  | store flag value => exact hrest
  | clearFaultCount => exact hrest
  | send type payload =>
      rw [exec]
      split <;> exact hrest

theorem turn_of {op : TaskOp} (h : op ∈ (fw.turn t).2) : op.Of t := by
  cases t with
  | heartbeat =>
      obtain rfl := List.mem_singleton.mp h
      rfl
  | telemetry =>
      rw [turn] at h
      split at h
      · cases h
      · obtain rfl := List.mem_singleton.mp h
        rfl
  | faultMonitor =>
      obtain rfl := List.mem_singleton.mp h
      rfl
  | commandHandler =>
      rw [turn] at h
      split at h
      · cases h
      · exact (handleFrame_handled _).of op h

theorem turn_faults (fw : Firmware) (t : Task) : (fw.turn t).1.faults = fw.faults := by
  unfold turn
  repeat' split
  all_goals rfl

def Owned (fw : Firmware) : Prop := ∀ t, ∀ op ∈ fw.ops t, op.Of t

theorem Owned.run (h : fw.Owned) (t : Task) (nowMs : U32) : (fw.run t nowMs).1.Owned := by
  intro t' op hmem
  by_cases ht : t' = t
  · subst ht
    have hran := fw.run_ran t' nowMs
    generalize fw.run t' nowMs = next at hran hmem
    cases hran with
    | sending hbusy hevs => exact h t' op hmem
    | turned hidle hops =>
        dsimp only at hmem
        rw [Function.update_self] at hmem
        exact turn_of hmem
    | executed hidle hops =>
        dsimp only at hmem
        rw [Function.update_self] at hmem
        have howned := h t'
        rw [hops] at howned
        obtain ⟨hop, hrest⟩ := List.forall_mem_cons.mp howned
        obtain hmem | hmem := List.mem_append.mp hmem
        · exact exec_of hop hmem
        · exact hrest op hmem
  · rw [run_ops_of_ne ht] at hmem
    exact h t' op hmem

/-- Of the tasks besides the command handler, only the monitor writes a flag,
and only to set safe mode. -/
theorem Owned.run_get (h : fw.Owned) (ht : t ≠ .commandHandler) (flag : Flag) :
    (fw.run t nowMs).1.faults.get flag = fw.faults.get flag ∨
      flag = .inSafeMode ∧ .store .inSafeMode true ∈ fw.ops .faultMonitor := by
  have hran := fw.run_ran t nowMs
  generalize fw.run t nowMs = next at hran ⊢
  cases hran with
  | sending hbusy hevs => exact Or.inl rfl
  | turned hidle hops => exact Or.inl (congrArg (·.get flag) (fw.turn_faults t))
  | @executed op rest hidle hops =>
      have hmem : op ∈ fw.ops t := hops ▸ List.mem_cons_self
      obtain hkept | hstore := op.stored_cases flag (fw.faults.get flag)
      · exact Or.inl ((exec_get op flag).trans hkept)
      · rw [hstore] at hmem
        obtain hhandler | ⟨rfl, rfl, hvalue⟩ := h t _ hmem
        · exact absurd hhandler ht
        · exact Or.inr ⟨rfl, hvalue ▸ hmem⟩

theorem store_mem_run {flag : Flag} {value : Bool}
    (h : .store flag value ∈ (fw.run t nowMs).1.ops .faultMonitor) :
    .store flag value ∈ fw.ops .faultMonitor ∨ fw.faults.get .injectCriticalFault = true := by
  by_cases ht : t = .faultMonitor
  · subst ht
    have hran := fw.run_ran .faultMonitor nowMs
    generalize fw.run .faultMonitor nowMs = next at hran h
    cases hran with
    | sending hbusy hevs => exact Or.inl h
    | turned hidle hops =>
        dsimp only at h
        rw [Function.update_self] at h
        cases List.mem_singleton.mp h
    | executed hidle hops =>
        dsimp only at h
        rw [Function.update_self] at h
        obtain h | h := List.mem_append.mp h
        · exact Or.inr (store_mem_exec h).2
        · exact Or.inl (hops ▸ List.mem_cons_of_mem _ h)
  · exact Or.inl (by rwa [run_ops_of_ne (Ne.symm ht)] at h)

end Firmware

end SafetyCopro
