import SafetyCopro.Firmware.Turns

/-!
The scan of the fault monitor against the commands handled between two scans,
each taken as a whole. The monitor compares two samples of the flag; a command
may clear it and another set it in between.
-/

namespace SafetyCopro

def SafetyRxFrame.InjectsCritical (frame : SafetyRxFrame) : Prop :=
  frame.command = some safetyCmdInjectFault ∧ byteAt frame.payload 1 = safetyFaultCritical

instance (frame : SafetyRxFrame) : Decidable frame.InjectsCritical :=
  inferInstanceAs (Decidable (_ ∧ _))

/-- `FAULT_EVENT(CRITICAL, severity 2)`. -/
def FirmwareEvent.isCritical : FirmwareEvent → Bool
  | .sendFrame type payload =>
      type == safetyFrameFaultEvent && byteAt payload 0 == safetyFaultCritical &&
        byteAt payload 1 == 2
  | .pollOut _ => false

/-! ### A turn past its scan -/

/-- An operation that is carried out, and the same in any state. -/
def TaskOp.Plain : TaskOp → Prop
  | .scan _ => False
  | .send _ payload => payload.length ≤ safetyMaxPayload
  | _ => True

def TaskOp.isCritical : TaskOp → Bool
  | .emitFault faultType severity _ => faultType == safetyFaultCritical && severity == 2
  | .send type payload => (FirmwareEvent.sendFrame type payload).isCritical
  | _ => false

theorem foldl_stored {flag : Flag} {ops : List TaskOp}
    (h : ∀ value, .store flag value ∉ ops) (value : Bool) :
    ops.foldl (TaskOp.stored flag) value = value := by
  induction ops generalizing value with
  | nil => rfl
  | cons op ops ih =>
      have hop : op.stored flag value = value := by
        obtain hop | hop := op.stored_cases flag value
        · exact hop
        · exact absurd (List.mem_cons.mpr (Or.inl hop.symm)) (h _)
      rw [List.foldl_cons, hop]
      exact ih (fun value hmem => h value (List.mem_cons_of_mem _ hmem)) value

namespace Firmware

variable {fw : Firmware} {t : Task} {nowMs : U32}

theorem exec_plain {op : TaskOp} (hop : op.Plain) :
    (∀ op' ∈ (fw.exec t nowMs op).2.1, op'.Plain) ∧
    (fw.exec t nowMs op).2.2.countP FirmwareEvent.isCritical +
        (fw.exec t nowMs op).2.1.countP TaskOp.isCritical =
      [op].countP TaskOp.isCritical ∧
    (fw.exec t nowMs op).1.prevCritical = fw.prevCritical := by
  have hsend : ∀ {type : U8} {payload : List U8}, payload.length = 8 →
      ∀ op' ∈ [TaskOp.send type payload], op'.Plain := by
    intro type payload hlen op' hmem
    obtain rfl := List.mem_singleton.mp hmem
    exact hlen.trans_le (by decide)
  cases op with
  | scan checksum => exact hop.elim
  | send type payload =>
      rw [exec, safetySendFrame_eq _ _ _ hop]
      exact ⟨List.forall_mem_nil _, rfl, rfl⟩
  | beat hang =>
      rw [exec]
      split
      · exact ⟨hsend rfl, rfl, rfl⟩
      · exact ⟨List.forall_mem_nil _, rfl, rfl⟩
  | sample => exact ⟨hsend rfl, rfl, rfl⟩
  | emitFault faultType severity detailCode =>
      refine ⟨hsend rfl, ?_, rfl⟩
      have hsame : (TaskOp.send safetyFrameFaultEvent
          (safetyFaultEventPayload faultType severity detailCode nowMs)).isCritical =
          (TaskOp.emitFault faultType severity detailCode).isCritical := rfl
      rw [exec, List.countP_singleton, List.countP_singleton, hsame, List.countP_nil, Nat.zero_add]
  | replyStatus => exact ⟨hsend rfl, rfl, rfl⟩
  | reportRecovery => exact ⟨hsend rfl, rfl, rfl⟩
  | store flag value => exact ⟨List.forall_mem_nil _, rfl, rfl⟩
  | clearFaultCount => exact ⟨List.forall_mem_nil _, rfl, rfl⟩

/-- A turn of `t` that has sent `evs`: what it will have written and sent at its
end, and what the monitor remembers. -/
structure Turning (t : Task) (values : Flag → Bool) (criticals : Nat) (prevCritical : Bool)
    (evs : List FirmwareEvent) (fw : Firmware) : Prop where
  plain : ∀ op ∈ fw.ops t, op.Plain
  flags : ∀ flag, (fw.ops t).foldl (TaskOp.stored flag) (fw.faults.get flag) = values flag
  criticals : evs.countP FirmwareEvent.isCritical + (fw.ops t).countP TaskOp.isCritical = criticals
  prevCritical : fw.prevCritical = prevCritical

variable {values : Flag → Bool} {criticals : Nat} {prevCritical : Bool}
  {evs : List FirmwareEvent}

theorem Turning.run (h : Turning t values criticals prevCritical evs fw) (ht : ¬ fw.AtHead t) :
    Turning t values criticals prevCritical (evs ++ (fw.run t nowMs).2) (fw.run t nowMs).1 := by
  have hran := fw.run_ran t nowMs
  generalize fw.run t nowMs = next at hran ⊢
  cases hran with
  | @sending mutex phase evs' hbusy hevs =>
      have hnone : evs'.countP FirmwareEvent.isCritical = 0 := by
        refine List.countP_eq_zero.mpr fun ev hev => ?_
        cases ev with
        | sendFrame type payload => exact absurd hev (hevs type payload)
        | pollOut b => exact Bool.false_ne_true
      refine ⟨h.plain, h.flags, ?_, h.prevCritical⟩
      dsimp only
      rw [List.countP_append, hnone]
      exact h.criticals
  | turned hidle hops => exact absurd ⟨hidle, hops⟩ ht
  | @executed op rest hidle hops =>
      obtain ⟨hplain, hflags, hcriticals, hprev⟩ := h
      rw [hops] at hplain hflags hcriticals
      obtain ⟨hop, hrest⟩ := List.forall_mem_cons.mp hplain
      obtain ⟨hnew, hsent, hkept⟩ := @exec_plain fw t nowMs op hop
      have hstores : ∀ flag value, .store flag value ∉ (fw.exec t nowMs op).2.1 := by
        intro flag value hmem
        obtain ⟨⟨checksum, rfl⟩, -⟩ := store_mem_exec hmem
        exact hop
      constructor <;> dsimp only <;> try rw [Function.update_self]
      case plain => exact List.forall_mem_append.mpr ⟨hnew, hrest⟩
      case flags =>
          intro flag
          rw [List.foldl_append, foldl_stored (hstores flag), exec_get]
          exact hflags flag
      case criticals =>
          rw [List.countP_append, List.countP_append, ← hcriticals, List.countP_cons]
          rw [List.countP_singleton] at hsent
          omega
      case prevCritical => exact hkept.trans hprev

theorem Turning.done (h : Turning t values criticals prevCritical evs fw) (ht : fw.AtHead t) :
    (∀ flag, fw.faults.get flag = values flag) ∧
    evs.countP FirmwareEvent.isCritical = criticals ∧ fw.prevCritical = prevCritical := by
  obtain ⟨-, hflags, hcriticals, hprev⟩ := h
  rw [ht.2] at hflags hcriticals
  exact ⟨hflags, hcriticals, hprev⟩

/-- The rest of a turn, from a state in which nothing has been sent. -/
theorem Turning.finish (h : Turning t values criticals prevCritical [] fw) (halone : fw.Alone t)
    {n : Nat} (hn : fw.work t ≤ n) :
    let next := Firmware.finish t nowMs n fw
    (∀ flag, next.1.faults.get flag = values flag) ∧
    next.2.countP FirmwareEvent.isCritical = criticals ∧ next.1.prevCritical = prevCritical :=
  (finish_rule (P := fun evs fw => Turning t values criticals prevCritical evs fw)
    (fun _ _ h ht => h.run ht) n h).done (halone.finish hn).2

/-- The turn of a task that does not scan: its operations, one after the other. -/
theorem Resting.turn_complete (h : fw.Resting) (hplain : ∀ op ∈ (fw.turn t).2, op.Plain)
    (hprev : (fw.turn t).1.prevCritical = fw.prevCritical) :
    (∀ flag, (fw.complete t nowMs).1.faults.get flag =
      (fw.turn t).2.foldl (TaskOp.stored flag) (fw.faults.get flag)) ∧
    (fw.complete t nowMs).1.prevCritical = fw.prevCritical := by
  obtain ⟨hidle, hops⟩ := h.tasks t
  have halone := (h.alone t).run nowMs
  rw [Firmware.complete]
  have hran := fw.run_ran t nowMs
  generalize fw.run t nowMs = next at hran halone ⊢
  cases hran with
  | sending hbusy hevs => exact absurd hidle hbusy
  | executed hat hcons =>
      rw [hops] at hcons
      cases hcons
  | turned hat hnil =>
      have hturning : Turning t
          (fun flag => (fw.turn t).2.foldl (TaskOp.stored flag) (fw.faults.get flag))
          ((fw.turn t).2.countP TaskOp.isCritical) fw.prevCritical []
          { (fw.turn t).1 with ops := Function.update (fw.turn t).1.ops t (fw.turn t).2 } := by
        constructor <;> dsimp only <;> try rw [Function.update_self]
        case plain => exact hplain
        case flags => exact fun flag => by rw [turn_faults]
        case criticals => exact Nat.zero_add _
        case prevCritical => exact hprev
      obtain ⟨hflags, -, hkept⟩ := @Turning.finish _ _ nowMs _ _ _ hturning halone _ (Nat.le_refl _)
      exact ⟨hflags, hkept⟩

/-- The turn past the scan: the faults to be sent are the edges it has found. -/
theorem turning_scan {checksum : Bool} (hops : fw.ops .faultMonitor = [.scan checksum])
    (hidle : fw.tx .faultMonitor = .idle) :
    let edge := fw.faults.injectCriticalFault && !fw.prevCritical
    (fw.run .faultMonitor nowMs).2 = [] ∧
    Turning .faultMonitor
      (fun flag => if flag = .inSafeMode then fw.faults.inSafeMode || edge else fw.faults.get flag)
      (if edge then 1 else 0) fw.faults.injectCriticalFault [] (fw.run .faultMonitor nowMs).1 := by
  intro edge
  rw [run_of_ops hidle hops]
  refine ⟨rfl, ?_⟩
  constructor <;> dsimp only <;> try rw [Function.update_self, List.append_nil]
  case plain =>
      intro op hmem
      simp only [exec, List.mem_append, List.mem_ite_nil_right, List.mem_cons, List.not_mem_nil,
        or_false] at hmem
      obtain ⟨-, rfl⟩ | ⟨-, rfl | rfl⟩ := hmem <;> trivial
  case flags =>
      intro flag
      have hget : fw.faults.get .inSafeMode = fw.faults.inSafeMode := rfl
      simp only [exec]
      cases hedge : fw.faults.injectCriticalFault && !fw.prevCritical <;>
        cases checksum && !fw.prevChecksum <;>
        by_cases hflag : flag = .inSafeMode <;>
        simp [edge, hedge, hflag, hget, TaskOp.stored]
  case criticals =>
      simp only [exec]
      cases hedge : fw.faults.injectCriticalFault && !fw.prevCritical <;>
        cases checksum && !fw.prevChecksum <;>
        simp [edge, hedge, TaskOp.isCritical]
  case prevCritical => rfl

/-- A scan: an edge of the critical flag is sent once and sets safe mode. -/
theorem Resting.scan_complete (h : fw.Resting) (nowMs : U32) :
    let edge := fw.faults.injectCriticalFault && !fw.prevCritical
    let next := fw.complete .faultMonitor nowMs
    (∀ flag, next.1.faults.get flag =
      if flag = .inSafeMode then fw.faults.inSafeMode || edge else fw.faults.get flag) ∧
    next.2.countP FirmwareEvent.isCritical = (if edge then 1 else 0) ∧
    next.1.prevCritical = fw.faults.injectCriticalFault := by
  intro edge next
  obtain ⟨hidle, hops⟩ := h.tasks .faultMonitor
  have hrun : fw.run .faultMonitor nowMs =
      ({ fw with
          ops := Function.update fw.ops .faultMonitor [.scan fw.faults.injectChecksumError] },
        []) := by
    simp only [Firmware.run, hidle, hops, turn]
  have halone := (h.alone .faultMonitor).run nowMs
  have hscan : (fw.run .faultMonitor nowMs).1.ops .faultMonitor =
      [.scan fw.faults.injectChecksumError] := by
    rw [hrun]
    dsimp only
    rw [Function.update_self]
  have hidle' : (fw.run .faultMonitor nowMs).1.tx .faultMonitor = .idle := by rwa [hrun]
  obtain ⟨hevs, hturning⟩ := @turning_scan _ nowMs _ hscan hidle'
  have hless := @Alone.run_work _ _ nowMs halone fun hat => by simp [AtHead, hscan] at hat
  have hsampled : (fw.run .faultMonitor nowMs).1.faults = fw.faults ∧
      (fw.run .faultMonitor nowMs).1.prevCritical = fw.prevCritical := by
    rw [hrun]
    exact ⟨rfl, rfl⟩
  rw [hsampled.1, hsampled.2] at hturning
  have hnext : next = Firmware.finish .faultMonitor nowMs
      ((fw.run .faultMonitor nowMs).1.work .faultMonitor) (fw.run .faultMonitor nowMs).1 := by
    simp only [next, Firmware.complete, hrun, List.nil_append]
  rw [hnext]
  cases hwork : (fw.run .faultMonitor nowMs).1.work .faultMonitor with
  | zero => omega
  | succ n =>
      rw [Firmware.finish, if_neg fun hat => by simp [AtHead, hscan] at hat]
      dsimp only
      rw [hevs, List.nil_append]
      exact hturning.finish (halone.run nowMs) (by omega)

/-- The head of a loop that neither scans nor takes a frame. -/
theorem turn_quiet (ht : t ≠ .faultMonitor) (hhead : fw.AtHead t) (htakes : fw.takes t = none) :
    ∀ op ∈ (fw.turn t).2, op.Plain ∧ ¬ op.IsStore := by
  cases t with
  | faultMonitor => exact absurd rfl ht
  | heartbeat => exact List.forall_mem_singleton.mpr ⟨trivial, id⟩
  | telemetry =>
      rw [turn]
      split
      · exact List.forall_mem_nil _
      · exact List.forall_mem_singleton.mpr ⟨trivial, id⟩
  | commandHandler =>
      rw [takes_at_head hhead.1 hhead.2] at htakes
      rw [turn, List.head?_eq_none_iff.mp htakes]
      exact List.forall_mem_nil _

theorem turn_prevCritical (fw : Firmware) (t : Task) :
    (fw.turn t).1.prevCritical = fw.prevCritical := by
  unfold turn
  repeat' split
  all_goals rfl

end Firmware

theorem Handled.plain {frame : SafetyRxFrame} {ops : List TaskOp} (h : Handled frame ops) :
    ∀ op ∈ ops, op.Plain := by
  have hack : ∀ seq, (safetyAckPayload seq).length ≤ safetyMaxPayload :=
    fun _ => (by decide : 4 ≤ 256)
  have hnack : ∀ seq reason, (safetyNackPayloadBytes seq reason).length ≤ safetyMaxPayload :=
    fun _ _ => (by decide : 4 ≤ 256)
  cases h <;> simp [clearAllInjects, TaskOp.Plain, sendAck, sendNack, hack, hnack]

/-- A recovery leaves the critical flag clear, an injection of the critical
fault sets it, and no other frame clears it. -/
theorem Handled.critical {frame : SafetyRxFrame} {ops : List TaskOp} (h : Handled frame ops)
    (hnot : ¬ frame.IsRecovery) :
    ops.foldl (TaskOp.stored .injectCriticalFault) true = true := by
  cases h with
  | refused reason => rfl
  | status hcommand => rfl
  | injected flag hcommand hflag => cases flag <;> rfl
  | safeMode hcommand => rfl
  | reset hcommand => exact absurd (Or.inr hcommand) hnot
  | recovery hcommand => exact absurd (Or.inl hcommand) hnot

theorem handleFrame_injectsCritical {frame : SafetyRxFrame} (h : frame.InjectsCritical) :
    handleFrame frame = [.store .injectCriticalFault true, sendAck frame.hdr.sequenceId] := by
  obtain ⟨hcommand, harg⟩ := h
  rw [SafetyRxFrame.command] at hcommand
  split at hcommand
  · rename_i hat
    have hread := Option.some.inj hcommand
    rw [handleFrame, if_pos hat.1, handleCommand, if_neg (not_not.mpr hat.2), hread, harg]
    rfl
  · cases hcommand

/-- The firmware taken turn by turn, and whether the next scan owes a critical
fault: one was injected and acknowledged while the flag was clear, and no
recovery has been handled since. -/
structure ScanWatch where
  fw : Firmware := {}
  pending : Bool := false

namespace ScanWatch

/-- Whether a fault is owed once a frame has been handled. -/
def handled (s : ScanWatch) (frame : SafetyRxFrame) (evs : List FirmwareEvent) : Bool :=
  if frame.IsRecovery then false
  else s.pending || decide (frame.InjectsCritical ∧ s.fw.faults.injectCriticalFault = false ∧
    evs.any FirmwareEvent.isAck)

def step (s : ScanWatch) : FirmwareInput → ScanWatch × List FirmwareEvent
  | .receive bytes => ({ s with fw := s.fw.receive bytes }, [])
  | .task t nowMs =>
      let (fw, evs) := s.fw.complete t nowMs
      let pending :=
        if t = .faultMonitor then false
        else
          match s.fw.takes t with
          | some frame => s.handled frame evs
          | none => s.pending
      ({ fw, pending }, evs)

/-- A scan that owes a critical fault sends it once and sets safe mode. -/
def Reports (s : ScanWatch) : FirmwareInput → Prop
  | .task t nowMs => t = .faultMonitor → s.pending = true →
      (s.fw.complete t nowMs).2.countP FirmwareEvent.isCritical = 1 ∧
      (s.fw.complete t nowMs).1.faults.inSafeMode = true
  | .receive _ => True

/-- A scan that owes a critical fault does not remember one. -/
def Fresh (s : ScanWatch) : FirmwareInput → Prop
  | .task t _ => t = .faultMonitor → s.pending = true → s.fw.prevCritical = false
  | .receive _ => True

structure Sound (s : ScanWatch) : Prop where
  resting : s.fw.Resting
  pending : s.pending = true → s.fw.faults.injectCriticalFault = true

theorem sound_init : Sound {} := ⟨Firmware.resting_init, nofun⟩

variable {s : ScanWatch}

theorem Sound.reports_iff (h : s.Sound) (a : FirmwareInput) : s.Reports a ↔ s.Fresh a := by
  cases a with
  | receive bytes => exact Iff.rfl
  | task t nowMs =>
      refine forall_congr' fun ht => forall_congr' fun hpending => ?_
      subst ht
      obtain ⟨hflags, hcount, -⟩ := h.resting.scan_complete nowMs
      have hsafe := hflags .inSafeMode
      rw [if_pos rfl] at hsafe
      rw [h.pending hpending, Bool.true_and] at hcount hsafe
      rw [hcount]
      cases hprev : s.fw.prevCritical with
      | true => simp
      | false =>
          rw [hprev, Bool.not_false, Bool.or_true] at hsafe
          exact iff_of_true ⟨rfl, hsafe⟩ rfl

/-- The frame the handler is about to take decides what its turn makes of the
critical flag. -/
theorem Sound.handled (h : s.Sound) {frame : SafetyRxFrame}
    (htakes : s.fw.takes .commandHandler = some frame) (nowMs : U32)
    (evs : List FirmwareEvent) (hpending : s.handled frame evs = true) :
    (s.fw.complete .commandHandler nowMs).1.faults.injectCriticalFault = true := by
  have hhandled := handleFrame_handled frame
  have hturn : (s.fw.turn .commandHandler).2 = handleFrame frame := by
    obtain ⟨-, -, -, rest, hq⟩ := Firmware.takes_eq_some htakes
    rw [Firmware.turn, hq]
  obtain ⟨hflags, -⟩ := @Firmware.Resting.turn_complete _ .commandHandler nowMs h.resting
    (hturn ▸ hhandled.plain) (s.fw.turn_prevCritical _)
  have hcritical := hflags .injectCriticalFault
  rw [hturn] at hcritical
  refine hcritical.trans ?_
  rw [ScanWatch.handled] at hpending
  split at hpending
  · cases hpending
  · rename_i hnot
    obtain hpending | hinjects := (Bool.or_eq_true _ _).mp hpending
    · have hset : s.fw.faults.get .injectCriticalFault = true := h.pending hpending
      rw [hset]
      exact hhandled.critical hnot
    · rw [handleFrame_injectsCritical (of_decide_eq_true hinjects).1]
      rfl

/-- A turn that neither scans nor takes a frame leaves the flags as they are. -/
theorem Sound.quiet (h : s.Sound) {t : Task} (ht : t ≠ .faultMonitor)
    (htakes : s.fw.takes t = none) (nowMs : U32) :
    (s.fw.complete t nowMs).1.faults.injectCriticalFault = s.fw.faults.injectCriticalFault := by
  have hquiet := Firmware.turn_quiet ht (h.resting.tasks t) htakes
  obtain ⟨hflags, -⟩ := @Firmware.Resting.turn_complete _ t nowMs h.resting
    (fun op hop => (hquiet op hop).1) (s.fw.turn_prevCritical t)
  exact (hflags .injectCriticalFault).trans
    (foldl_stored (fun value hmem => (hquiet _ hmem).2 trivial) _)

theorem Sound.step (h : s.Sound) (a : FirmwareInput) : (s.step a).1.Sound := by
  cases a with
  | receive bytes => exact ⟨⟨h.resting.sound.congr rfl rfl, h.resting.tasks⟩, h.pending⟩
  | task t nowMs =>
      refine ⟨h.resting.complete t nowMs, fun hpending => ?_⟩
      rw [ScanWatch.step] at hpending ⊢
      dsimp only at hpending ⊢
      by_cases ht : t = .faultMonitor
      · rw [if_pos ht] at hpending
        cases hpending
      · rw [if_neg ht] at hpending
        cases htakes : s.fw.takes t with
        | some frame =>
            rw [htakes] at hpending
            obtain rfl := (Firmware.takes_eq_some htakes).1
            exact h.handled htakes nowMs _ hpending
        | none =>
            rw [htakes] at hpending
            exact (h.quiet ht htakes nowMs).trans (h.pending hpending)

/-- Every scan that owes a critical fault reports it just if none of them
remembers an earlier one. -/
theorem criticals_reported_iff (inputs : List FirmwareInput) :
    Machine.Along step Reports {} inputs ↔ Machine.Along step Fresh {} inputs :=
  Machine.along_congr (P := Sound) (fun _ a h => h.step a) sound_init inputs
    (fun _ a _ h => h.reports_iff a)

/-- Cleared and set again between two scans, the flag is the same to both: the
second fault is acknowledged and never reported. -/
theorem critical_lost :
    let s := Machine.after step {}
      [injectCritical, .task .commandHandler 0, .task .faultMonitor 0,
        requestRecovery, .task .commandHandler 0, injectCritical, .task .commandHandler 0]
    s.pending = true ∧ (s.fw.complete .faultMonitor 0).2 = [] ∧
      (s.fw.complete .faultMonitor 0).1.faults.inSafeMode = false := by
  decide +kernel

end ScanWatch

end SafetyCopro
