import SafetyCopro.Firmware.SafetyProtocol

/-!
The four tasks of the firmware and the state they share. Each task runs in a
loop of its own; between two accesses to shared state any other task may run.
A turn of a task's loop is a list of operations still to be done, and a step of
the task is one of them. `k_msleep` takes any time at all, and the heartbeat
interval is only read to sleep.
-/

namespace SafetyCopro

inductive Task
  | heartbeat | telemetry | faultMonitor | commandHandler
deriving DecidableEq, Repr

def Task.all : List Task := [.heartbeat, .telemetry, .faultMonitor, .commandHandler]

theorem Task.mem_all (t : Task) : t ∈ all := by cases t <;> decide

inductive Flag
  | injectTaskHang | injectChecksumError | injectCriticalFault | inSafeMode
deriving DecidableEq, Repr

/-- `g_fault_state`. -/
structure SafetyFaultState where
  injectTaskHang : Bool := false
  injectChecksumError : Bool := false
  injectCriticalFault : Bool := false
  inSafeMode : Bool := false
  faultCount : Nat := 0
  heartbeatIntervalMs : Nat := 100
deriving DecidableEq, Repr

def SafetyFaultState.store (s : SafetyFaultState) (value : Bool) : Flag → SafetyFaultState
  | .injectTaskHang => { s with injectTaskHang := value }
  | .injectChecksumError => { s with injectChecksumError := value }
  | .injectCriticalFault => { s with injectCriticalFault := value }
  | .inSafeMode => { s with inSafeMode := value }

inductive TaskOp
  -- the heartbeat task, with `hang` read
  | beat (hang : Bool)
  -- the telemetry task, outside safe mode
  | sample
  -- the fault monitor, with `checksum` read
  | scan (checksum : Bool)
  | emitFault (faultType severity : U8) (detailCode : U16)
  | replyStatus
  | reportRecovery
  | store (flag : Flag) (value : Bool)
  | clearFaultCount
  -- a call of `safety_send_frame`
  | send (type : U8) (payload : List U8)
deriving DecidableEq, Repr

/-- How far a task is in `safety_send_frame`, once it has its number. -/
inductive TxPhase
  | idle
  -- before `k_mutex_lock`
  | locking (frame : List U8)
  -- with the mutex, and these bytes still to go
  | putting (bytes : List U8)
deriving DecidableEq, Repr

structure Firmware where
  faults : SafetyFaultState := {}
  txSequence : Nat := 0
  txMutex : Option Task := none
  rxs : RxState := {}
  rxMsgq : List SafetyRxFrame := []
  beatSeq : U32 := 0
  tick : U32 := 0
  prevChecksum : Bool := false
  prevCritical : Bool := false
  ops : Task → List TaskOp := fun _ => []
  tx : Task → TxPhase := fun _ => .idle

/-! ### The command handler -/

def sendAck (ackedSeq : U16) : TaskOp := .send safetyFrameAck (safetyAckPayload ackedSeq)

def sendNack (nackedSeq : U16) (reason : U8) : TaskOp :=
  .send safetyFrameNack (safetyNackPayloadBytes nackedSeq reason)

def applyInject (faultType : U8) : Option TaskOp :=
  if faultType = safetyFaultTaskHang then some (.store .injectTaskHang true)
  else if faultType = safetyFaultChecksumError then some (.store .injectChecksumError true)
  else if faultType = safetyFaultCritical then some (.store .injectCriticalFault true)
  else none

def clearAllInjects : List TaskOp :=
  [.store .injectTaskHang false, .store .injectChecksumError false,
   .store .injectCriticalFault false]

def handleCommand (frame : SafetyRxFrame) : List TaskOp :=
  let seq := frame.hdr.sequenceId
  if frame.hdr.payloadLength ≠ 8 then [sendNack seq safetyNackPayload]
  else
    let command := byteAt frame.payload 0
    if command = safetyCmdGetStatus then [.replyStatus, sendAck seq]
    else if command = safetyCmdInjectFault then
      match applyInject (byteAt frame.payload 1) with
      | none => [sendNack seq safetyNackPayload]
      | some op => [op, sendAck seq]
    else if command = safetyCmdResetFaultState then
      clearAllInjects ++ [.clearFaultCount, .store .inSafeMode false, sendAck seq]
    else if command = safetyCmdEnterSafeMode then [.store .inSafeMode true, sendAck seq]
    else if command = safetyCmdRequestRecovery then
      clearAllInjects ++ [.store .inSafeMode false, .reportRecovery, sendAck seq]
    else [sendNack seq safetyNackUnknownType]

def TaskOp.IsNack : TaskOp → Prop
  | .send type _ => type = safetyFrameNack
  | _ => False

/-- What `command_handler_task_entry` does with a frame of the queue. -/
def handleFrame (frame : SafetyRxFrame) : List TaskOp :=
  if frame.hdr.type = safetyFrameCommand then handleCommand frame
  else [sendNack frame.hdr.sequenceId safetyNackUnknownType]

/-! ### Steps -/

/-- The triangle wave of the telemetry task. -/
def telemetrySample (tick : U32) (faultCount : Nat) : List U8 :=
  let phase := tick.toNat % 20
  let delta := if phase < 10 then phase * 15 else (20 - phase) * 15
  safetyTelemetryPayload (BitVec.ofNat 16 (250 + delta)) 3300
    (BitVec.ofNat 16 (20 + tick.toNat % 30)) (BitVec.ofNat 16 faultCount)

inductive FirmwareEvent
  -- a call of `safety_send_frame` that is not refused
  | sendFrame (type : U8) (payload : List U8)
  | pollOut (b : U8)
deriving DecidableEq, Repr

def pollOuts (evs : List FirmwareEvent) : List U8 :=
  evs.filterMap fun
    | .pollOut b => some b
    | _ => none

namespace Firmware

/-- The head of a task's loop, with the first access to shared state. The
command handler waits for a frame. -/
def turn (fw : Firmware) : Task → Firmware × List TaskOp
  | .heartbeat => (fw, [.beat fw.faults.injectTaskHang])
  | .telemetry =>
      if fw.faults.inSafeMode then ({ fw with tick := fw.tick + 1 }, []) else (fw, [.sample])
  | .faultMonitor => (fw, [.scan fw.faults.injectChecksumError])
  | .commandHandler =>
      match fw.rxMsgq with
      | [] => (fw, [])
      | frame :: rest => ({ fw with rxMsgq := rest }, handleFrame frame)

/-- One operation: what is left of it, and the call it makes. -/
def exec (fw : Firmware) (t : Task) (nowMs : U32) :
    TaskOp → Firmware × List TaskOp × List FirmwareEvent
  | .beat hang =>
      if !hang && !fw.faults.inSafeMode then
        ({ fw with beatSeq := fw.beatSeq + 1 },
          [.send safetyFrameHeartbeat (safetyHeartbeatPayload nowMs fw.beatSeq)], [])
      else (fw, [], [])
  | .sample =>
      ({ fw with tick := fw.tick + 1 },
        [.send safetyFrameTelemetry (telemetrySample fw.tick fw.faults.faultCount)], [])
  | .scan checksum =>
      let critical := fw.faults.injectCriticalFault
      -- edge-triggered
      ({ fw with prevChecksum := checksum, prevCritical := critical },
        (if checksum && !fw.prevChecksum then [.emitFault safetyFaultChecksumError 1 2] else []) ++
        (if critical && !fw.prevCritical then
          [.emitFault safetyFaultCritical 2 3, .store .inSafeMode true]
        else []), [])
  | .emitFault faultType severity detailCode =>
      ({ fw with faults := { fw.faults with faultCount := fw.faults.faultCount + 1 } },
        [.send safetyFrameFaultEvent (safetyFaultEventPayload faultType severity detailCode nowMs)],
        [])
  | .replyStatus =>
      (fw,
        [.send safetyFrameTelemetry
          (safetyTelemetryPayload 250 3300 25 (BitVec.ofNat 16 fw.faults.faultCount))], [])
  | .reportRecovery =>
      (fw, [.send safetyFrameRecoveryReport (safetyRecoveryReportPayload 1 0 nowMs)], [])
  | .store flag value => ({ fw with faults := fw.faults.store value flag }, [], [])
  | .clearFaultCount => ({ fw with faults := { fw.faults with faultCount := 0 } }, [], [])
  | .send type payload =>
      match safetySendFrame fw.txSequence type payload nowMs with
      | (txSequence, none) => ({ fw with txSequence := txSequence }, [], [])
      | (txSequence, some frame) =>
          ({ fw with txSequence := txSequence, tx := Function.update fw.tx t (.locking frame) }, [],
            [.sendFrame type payload])

def run (fw : Firmware) (t : Task) (nowMs : U32) : Firmware × List FirmwareEvent :=
  match fw.tx t with
  | .locking frame =>
      if fw.txMutex = none then
        ({ fw with txMutex := some t, tx := Function.update fw.tx t (.putting frame) }, [])
      else (fw, [])
  | .putting (b :: bytes) =>
      ({ fw with tx := Function.update fw.tx t (.putting bytes) }, [.pollOut b])
  | .putting [] => ({ fw with txMutex := none, tx := Function.update fw.tx t .idle }, [])
  | .idle =>
      match fw.ops t with
      | [] =>
          let (fw, ops) := fw.turn t
          ({ fw with ops := Function.update fw.ops t ops }, [])
      | op :: rest =>
          let (fw, ops, evs) := fw.exec t nowMs op
          ({ fw with ops := Function.update fw.ops t (ops ++ rest) }, evs)

/-- `k_msgq_put` without waiting: a full queue drops the frame. -/
def msgqPut (msgq : List SafetyRxFrame) (frame : SafetyRxFrame) : List SafetyRxFrame :=
  if msgq.length < 8 then msgq ++ [frame] else msgq

def receive (fw : Firmware) (bytes : List U8) : Firmware :=
  let (rxs, frames) := rxFeed fw.rxs bytes
  { fw with rxs := rxs, rxMsgq := frames.foldl msgqPut fw.rxMsgq }

/-! ### What a step leaves alone -/

@[simp] theorem exec_rxs (fw : Firmware) (t : Task) (nowMs : U32) (op : TaskOp) :
    (fw.exec t nowMs op).1.rxs = fw.rxs := by
  unfold exec
  repeat' split
  all_goals rfl

@[simp] theorem exec_rxMsgq (fw : Firmware) (t : Task) (nowMs : U32) (op : TaskOp) :
    (fw.exec t nowMs op).1.rxMsgq = fw.rxMsgq := by
  unfold exec
  repeat' split
  all_goals rfl

@[simp] theorem exec_txMutex (fw : Firmware) (t : Task) (nowMs : U32) (op : TaskOp) :
    (fw.exec t nowMs op).1.txMutex = fw.txMutex := by
  unfold exec
  repeat' split
  all_goals rfl

@[simp] theorem exec_ops (fw : Firmware) (t : Task) (nowMs : U32) (op : TaskOp) :
    (fw.exec t nowMs op).1.ops = fw.ops := by
  unfold exec
  repeat' split
  all_goals rfl

/-- Only a call of `safety_send_frame` touches the transmitter: it takes a
number, and packs the frame. -/
theorem exec_tx (fw : Firmware) (t : Task) (nowMs : U32) (op : TaskOp) :
    ((fw.exec t nowMs op).1.tx = fw.tx ∧
        (fw.exec t nowMs op).1.txSequence = fw.txSequence) ∨
      ∃ type payload, payload.length ≤ safetyMaxPayload ∧ op = .send type payload ∧
        (fw.exec t nowMs op).1.tx = Function.update fw.tx t
          (.locking (packFrame type (BitVec.ofNat 16 fw.txSequence) nowMs payload)) ∧
        (fw.exec t nowMs op).1.txSequence = fw.txSequence + 1 := by
  cases op with
  | send type payload =>
      by_cases h : payload.length ≤ safetyMaxPayload
      · refine Or.inr ⟨type, payload, h, rfl, ?_⟩
        rw [exec, safetySendFrame_eq _ _ _ h]
        exact ⟨rfl, rfl⟩
      · rw [exec, safetySendFrame, if_pos (Nat.not_le.mp h)]
        exact Or.inl ⟨rfl, rfl⟩
  | beat hang =>
      rw [exec]
      split <;> exact Or.inl ⟨rfl, rfl⟩
  | _ => exact Or.inl ⟨rfl, rfl⟩

theorem exec_pollOut {fw : Firmware} {t : Task} {nowMs : U32} {op : TaskOp} :
    pollOuts (fw.exec t nowMs op).2.2 = [] := by
  unfold exec
  repeat' split
  all_goals rfl

theorem sendFrame_mem_exec {fw : Firmware} {t : Task} {nowMs : U32} {op : TaskOp} {type : U8}
    {payload : List U8} (h : .sendFrame type payload ∈ (fw.exec t nowMs op).2.2) :
    op = .send type payload := by
  cases op with
  | send type' payload' =>
      rw [exec] at h
      split at h
      · cases h
      · obtain ⟨rfl, rfl⟩ := FirmwareEvent.sendFrame.inj (List.mem_singleton.mp h)
        rfl
  | beat hang =>
      rw [exec] at h
      split at h <;> cases h
  | _ => cases h

theorem turn_fields (fw : Firmware) (t : Task) :
    (fw.turn t).1.rxs = fw.rxs ∧ (fw.turn t).1.ops = fw.ops ∧ (fw.turn t).1.tx = fw.tx ∧
      (fw.turn t).1.txMutex = fw.txMutex ∧ (fw.turn t).1.txSequence = fw.txSequence := by
  unfold turn
  repeat' split
  all_goals exact ⟨rfl, rfl, rfl, rfl, rfl⟩

/-! ### What a step of a task does -/

/-- Everything a step of a task can be: a step inside `safety_send_frame`, the
head of its loop, or its next operation. -/
inductive Ran (fw : Firmware) (t : Task) (nowMs : U32) : Firmware × List FirmwareEvent → Prop
  | sending {mutex : Option Task} {phase : TxPhase} {evs : List FirmwareEvent}
      (hbusy : fw.tx t ≠ .idle) (hevs : ∀ type payload, .sendFrame type payload ∉ evs) :
      Ran fw t nowMs ({ fw with txMutex := mutex, tx := Function.update fw.tx t phase }, evs)
  | turned (hidle : fw.tx t = .idle) (hops : fw.ops t = []) :
      Ran fw t nowMs
        ({ (fw.turn t).1 with ops := Function.update (fw.turn t).1.ops t (fw.turn t).2 }, [])
  | executed {op : TaskOp} {rest : List TaskOp} (hidle : fw.tx t = .idle)
      (hops : fw.ops t = op :: rest) :
      Ran fw t nowMs
        ({ (fw.exec t nowMs op).1 with
            ops := Function.update fw.ops t ((fw.exec t nowMs op).2.1 ++ rest) },
          (fw.exec t nowMs op).2.2)

theorem run_ran (fw : Firmware) (t : Task) (nowMs : U32) : fw.Ran t nowMs (fw.run t nowMs) := by
  rw [run]
  split
  · rename_i frame htx
    have hbusy : fw.tx t ≠ .idle := by simp [htx]
    split
    · exact .sending hbusy nofun
    · have hstay := @Ran.sending fw t nowMs fw.txMutex (fw.tx t) [] hbusy nofun
      rwa [Function.update_eq_self] at hstay
  · rename_i b bytes htx
    exact .sending (by simp [htx]) (by simp)
  · rename_i htx
    exact .sending (by simp [htx]) nofun
  · rename_i hidle
    split
    · rename_i hops
      exact .turned hidle hops
    · rename_i op rest hops
      have hexec := @Ran.executed fw t nowMs op rest hidle hops
      rwa [← fw.exec_ops t nowMs op] at hexec

theorem run_of_ops {fw : Firmware} {t : Task} {op : TaskOp} {rest : List TaskOp}
    (hidle : fw.tx t = .idle) (hops : fw.ops t = op :: rest) (nowMs : U32) :
    fw.run t nowMs =
      ({ (fw.exec t nowMs op).1 with
          ops := Function.update fw.ops t ((fw.exec t nowMs op).2.1 ++ rest) },
        (fw.exec t nowMs op).2.2) := by
  simp only [run, hidle, hops, exec_ops]

/-- The frame that the next step of `t` takes from the queue. -/
def takes (fw : Firmware) (t : Task) : Option SafetyRxFrame :=
  if t = .commandHandler ∧ fw.tx t = .idle ∧ fw.ops t = [] then fw.rxMsgq.head? else none

theorem takes_of_ne {fw : Firmware} {t : Task} (ht : t ≠ .commandHandler) : fw.takes t = none :=
  if_neg fun h => ht h.1

theorem takes_of_busy {fw : Firmware} {t : Task} (ht : fw.tx t ≠ .idle) : fw.takes t = none :=
  if_neg fun h => ht h.2.1

theorem takes_of_ops {fw : Firmware} {t : Task} {op : TaskOp} {rest : List TaskOp}
    (hops : fw.ops t = op :: rest) : fw.takes t = none := by
  refine if_neg fun h => ?_
  rw [hops] at h
  cases h.2.2

theorem takes_at_head {fw : Firmware} (hidle : fw.tx .commandHandler = .idle)
    (hops : fw.ops .commandHandler = []) : fw.takes .commandHandler = fw.rxMsgq.head? :=
  if_pos ⟨rfl, hidle, hops⟩

/-- The handler takes a frame at the head of its loop. -/
theorem takes_eq_some {fw : Firmware} {t : Task} {m : SafetyRxFrame} (h : fw.takes t = some m) :
    t = .commandHandler ∧ fw.tx t = .idle ∧ fw.ops t = [] ∧ ∃ rest, fw.rxMsgq = m :: rest := by
  rw [takes] at h
  split at h
  · rename_i hat
    obtain ⟨rfl, hidle, hops⟩ := hat
    exact ⟨rfl, hidle, hops, List.head?_eq_some_iff.mp h⟩
  · cases h

theorem mem_of_takes {fw : Firmware} {t : Task} {m : SafetyRxFrame} (h : fw.takes t = some m) :
    m ∈ fw.rxMsgq := by
  obtain ⟨-, -, -, rest, hq⟩ := takes_eq_some h
  rw [hq]
  exact List.mem_cons_self

theorem run_of_takes {fw : Firmware} {t : Task} {m : SafetyRxFrame} (h : fw.takes t = some m)
    (nowMs : U32) :
    (fw.run t nowMs).1.tx t = .idle ∧ (fw.run t nowMs).1.ops t = handleFrame m := by
  obtain ⟨rfl, hidle, hops, rest, hq⟩ := takes_eq_some h
  simp only [run, hidle, hops, turn, hq, Function.update_self, and_self]

theorem run_send {fw : Firmware} {t : Task} {type : U8} {payload : List U8} {rest : List TaskOp}
    (hidle : fw.tx t = .idle) (hops : fw.ops t = .send type payload :: rest)
    (hfits : payload.length ≤ safetyMaxPayload) (nowMs : U32) :
    (fw.run t nowMs).2 = [.sendFrame type payload] := by
  simp only [run, hidle, hops, exec, safetySendFrame_eq _ _ _ hfits]

theorem run_ops_of_ne {fw : Firmware} {t : Task} {nowMs : U32} {t' : Task} (ht : t' ≠ t) :
    (fw.run t nowMs).1.ops t' = fw.ops t' := by
  have hran := fw.run_ran t nowMs
  generalize fw.run t nowMs = next at hran ⊢
  cases hran with
  | sending hbusy hevs => rfl
  | turned hidle hops =>
      dsimp only
      rw [Function.update_of_ne ht, (fw.turn_fields t).2.1]
  | executed hidle hops =>
      dsimp only
      rw [Function.update_of_ne ht]

theorem run_tx_of_ne {fw : Firmware} {t : Task} {nowMs : U32} {t' : Task} (ht : t' ≠ t) :
    (fw.run t nowMs).1.tx t' = fw.tx t' := by
  have hran := fw.run_ran t nowMs
  generalize fw.run t nowMs = next at hran ⊢
  cases hran with
  | sending hbusy hevs => exact Function.update_of_ne ht ..
  | turned hidle hops => exact congrFun (fw.turn_fields t).2.2.1 t'
  | @executed op rest hidle hops =>
      obtain ⟨htx, -⟩ | ⟨type, payload, -, -, htx, -⟩ := fw.exec_tx t nowMs op
      · exact congrFun htx t'
      · exact (congrFun htx t').trans (Function.update_of_ne ht ..)

@[simp] theorem run_rxs (fw : Firmware) (t : Task) (nowMs : U32) :
    (fw.run t nowMs).1.rxs = fw.rxs := by
  have hran := fw.run_ran t nowMs
  generalize fw.run t nowMs = next at hran ⊢
  cases hran with
  | sending hbusy hevs => rfl
  | turned hidle hops => exact (fw.turn_fields t).1
  | executed hidle hops => exact fw.exec_rxs t nowMs _

theorem run_rxMsgq {fw : Firmware} {t : Task} (h : fw.takes t = none) (nowMs : U32) :
    (fw.run t nowMs).1.rxMsgq = fw.rxMsgq := by
  have hran := fw.run_ran t nowMs
  generalize fw.run t nowMs = next at hran ⊢
  cases hran with
  | sending hbusy hevs => rfl
  | turned hidle hops =>
      cases t with
      | heartbeat => rfl
      | faultMonitor => rfl
      | telemetry =>
          dsimp only
          rw [turn]
          split <;> rfl
      | commandHandler =>
          rw [takes_at_head hidle hops] at h
          dsimp only
          rw [turn, List.head?_eq_none_iff.mp h]
          exact List.head?_eq_none_iff.mp h
  | executed hidle hops => exact fw.exec_rxMsgq t nowMs _

theorem mem_turn_rxMsgq {fw : Firmware} {t : Task} {m : SafetyRxFrame}
    (h : m ∈ (fw.turn t).1.rxMsgq) : m ∈ fw.rxMsgq := by
  cases t with
  | heartbeat => exact h
  | faultMonitor => exact h
  | telemetry =>
      rw [turn] at h
      split at h <;> exact h
  | commandHandler =>
      rw [turn] at h
      split at h
      · exact h
      · rename_i hq
        rw [hq]
        exact List.mem_cons_of_mem _ h

theorem mem_run_rxMsgq {fw : Firmware} {t : Task} {nowMs : U32} {m : SafetyRxFrame}
    (h : m ∈ (fw.run t nowMs).1.rxMsgq) : m ∈ fw.rxMsgq := by
  have hran := fw.run_ran t nowMs
  generalize fw.run t nowMs = next at hran h
  cases hran with
  | sending hbusy hevs => exact h
  | turned hidle hops => exact mem_turn_rxMsgq h
  | @executed op rest hidle hops => rwa [← fw.exec_rxMsgq t nowMs op]

theorem not_nack_of_mem_exec {fw : Firmware} {t : Task} {nowMs : U32} {op op' : TaskOp}
    (h : op' ∈ (fw.exec t nowMs op).2.1) : ¬ op'.IsNack := by
  have hsend : ∀ {type : U8} {payload : List U8}, type ≠ safetyFrameNack →
      op' ∈ [TaskOp.send type payload] → ¬ op'.IsNack := by
    intro type payload htype hmem
    obtain rfl := List.mem_singleton.mp hmem
    exact htype
  cases op with
  | beat hang =>
      rw [exec] at h
      split at h
      · exact hsend (by decide) h
      · cases h
  | scan checksum =>
      simp only [exec, List.mem_append, List.mem_ite_nil_right, List.mem_cons, List.not_mem_nil,
        or_false] at h
      obtain ⟨-, rfl⟩ | ⟨-, rfl | rfl⟩ := h <;> exact id
  | sample => exact hsend (by decide) h
  | emitFault faultType severity detailCode => exact hsend (by decide) h
  | replyStatus => exact hsend (by decide) h
  | reportRecovery => exact hsend (by decide) h
  | send type payload =>
      rw [exec] at h
      split at h <;> cases h
  | _ => cases h

/-- A task begins a turn with a `NACK` only for a frame it takes. -/
theorem nack_of_mem_turn {fw : Firmware} {t : Task} {op : TaskOp} (hidle : fw.tx t = .idle)
    (hops : fw.ops t = []) (h : op ∈ (fw.turn t).2) (hnack : op.IsNack) :
    ∃ frame, fw.takes t = some frame ∧ op ∈ handleFrame frame := by
  cases t with
  | heartbeat =>
      obtain rfl := List.mem_singleton.mp h
      exact hnack.elim
  | faultMonitor =>
      obtain rfl := List.mem_singleton.mp h
      exact hnack.elim
  | telemetry =>
      rw [turn] at h
      split at h
      · cases h
      · obtain rfl := List.mem_singleton.mp h
        exact hnack.elim
  | commandHandler =>
      rw [turn] at h
      split at h
      · cases h
      · rename_i frame rest hq
        refine ⟨frame, ?_, h⟩
        rw [takes_at_head hidle hops, hq]
        rfl

theorem nack_of_mem_run_ops {fw : Firmware} {t t' : Task} {nowMs : U32} {op : TaskOp}
    (h : op ∈ (fw.run t nowMs).1.ops t') (hnack : op.IsNack) :
    op ∈ fw.ops t' ∨ ∃ frame, fw.takes t = some frame ∧ op ∈ handleFrame frame := by
  by_cases ht : t' = t
  · subst ht
    have hran := fw.run_ran t' nowMs
    generalize fw.run t' nowMs = next at hran h
    cases hran with
    | sending hbusy hevs => exact Or.inl h
    | turned hidle hops =>
        dsimp only at h
        rw [Function.update_self] at h
        exact Or.inr (nack_of_mem_turn hidle hops h hnack)
    | executed hidle hops =>
        dsimp only at h
        rw [Function.update_self] at h
        obtain h | h := List.mem_append.mp h
        · exact absurd hnack (not_nack_of_mem_exec h)
        · exact Or.inl (hops ▸ List.mem_cons_of_mem _ h)
  · rw [run_ops_of_ne ht] at h
    exact Or.inl h

theorem send_mem_of_sendFrame {fw : Firmware} {t : Task} {nowMs : U32} {type : U8}
    {payload : List U8} (h : .sendFrame type payload ∈ (fw.run t nowMs).2) :
    .send type payload ∈ fw.ops t := by
  have hran := fw.run_ran t nowMs
  generalize fw.run t nowMs = next at hran h
  cases hran with
  | sending hbusy hevs => exact absurd h (hevs type payload)
  | turned hidle hops => cases h
  | executed hidle hops =>
      rw [hops, sendFrame_mem_exec h]
      exact List.mem_cons_self

end Firmware

end SafetyCopro
