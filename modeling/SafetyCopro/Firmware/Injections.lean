import SafetyCopro.Firmware.Operations

/-!
What injected faults do, in any interleaving of the tasks. A task that has read a
flag goes on with what it read, so a heartbeat may still go out when the flag that
stops them is set. The fault monitor reports every rise of a flag it sees, and no
other.
-/

namespace SafetyCopro

namespace Firmware

/-! ### What a step leaves to do -/

/-- A step of a task keeps what holds of the list of every task, when it holds of what the
head of the loop puts there and of what an operation leaves. -/
theorem run_ops_keeps {P : Task → List TaskOp → Prop} {fw : Firmware} {t : Task} {nowMs : U32}
    (h : ∀ t', P t' (fw.ops t')) (hturn : P t (fw.turn t).2)
    (hexec : ∀ op rest, fw.ops t = op :: rest → P t ((fw.exec t nowMs op).2.1 ++ rest))
    (t' : Task) : P t' ((fw.run t nowMs).1.ops t') := by
  by_cases ht : t' = t
  · subst ht
    have hran := fw.run_ran t' nowMs
    generalize fw.run t' nowMs = next at hran ⊢
    cases hran with
    | sending hbusy hevs => exact h t'
    | turned hidle hops =>
        dsimp only
        rw [Function.update_self]
        exact hturn
    | executed hidle hops =>
        dsimp only
        rw [Function.update_self]
        exact hexec _ _ hops
  · rw [run_ops_of_ne ht]
    exact h t'

/-! ### Weighing what is left to do -/

def weigh (w : TaskOp → Nat) : List TaskOp → Nat
  | [] => 0
  | op :: ops => w op + weigh w ops

/-- The weight of what all tasks have left to do. -/
def load (w : TaskOp → Nat) (ops : Task → List TaskOp) : Nat := weigh w (Task.all.flatMap ops)

variable {w : TaskOp → Nat} {ops : Task → List TaskOp} {t : Task}

@[simp] theorem weigh_nil : weigh w [] = 0 := rfl

@[simp] theorem weigh_cons (op : TaskOp) (rest : List TaskOp) :
    weigh w (op :: rest) = w op + weigh w rest := rfl

@[simp] theorem weigh_append (new rest : List TaskOp) :
    weigh w (new ++ rest) = weigh w new + weigh w rest := by
  induction new with
  | nil => exact (Nat.zero_add _).symm
  | cons op new ih => rw [List.cons_append, weigh_cons, weigh_cons, ih, Nat.add_assoc]

theorem load_update (new : List TaskOp) :
    load w (Function.update ops t new) + weigh w (ops t) = load w ops + weigh w new := by
  rw [load, load]
  cases t <;> simp [Task.all] <;> omega

theorem load_turned (h : ops t = []) (new : List TaskOp) :
    load w (Function.update ops t new) = load w ops + weigh w new := by
  have hload := @load_update w ops t new
  rwa [h, weigh_nil, Nat.add_zero] at hload

theorem load_executed {op : TaskOp} {rest : List TaskOp} (h : ops t = op :: rest)
    (new : List TaskOp) :
    load w (Function.update ops t (new ++ rest)) + w op = load w ops + weigh w new := by
  have hload := @load_update w ops t (new ++ rest)
  rw [h, weigh_cons, weigh_append] at hload
  omega

end Firmware

/-! ### Heartbeats -/

def FirmwareEvent.isHeartbeat : FirmwareEvent → Bool
  | .sendFrame type _ => type == safetyFrameHeartbeat
  | .pollOut _ => false

/-- The heartbeats that may still come of the operation while the flag is set. -/
def TaskOp.beats (flag : Flag) : TaskOp → Nat
  | .beat hang => if flag = .injectTaskHang ∧ hang = false then 1 else 0
  | .send type _ => if type = safetyFrameHeartbeat then 1 else 0
  | _ => 0

/-- The flags that the heartbeat task asks for. -/
def Flag.Silences (flag : Flag) : Prop := flag = .injectTaskHang ∨ flag = .inSafeMode

namespace Firmware
variable {flag : Flag} {fw : Firmware} {t : Task} {nowMs : U32}

theorem handleFrame_beats (flag : Flag) (frame : SafetyRxFrame) :
    weigh (TaskOp.beats flag) (handleFrame frame) = 0 := by
  have hhandled := handleFrame_handled frame
  generalize handleFrame frame = ops at hhandled
  cases hhandled <;> rfl

theorem turn_beats (flag : Flag) (ht : t ≠ .heartbeat) :
    weigh (TaskOp.beats flag) (fw.turn t).2 = 0 := by
  unfold turn
  split
  · exact absurd rfl ht
  · split <;> rfl
  · rfl
  · split
    · rfl
    · exact handleFrame_beats flag _

/-- With the flag set, the head of the loop starts no heartbeat. -/
theorem turn_silent (hflag : flag.Silences) (hset : fw.faults.get flag = true) :
    weigh (TaskOp.beats flag) (fw.turn .heartbeat).2 = 0 := by
  obtain rfl | rfl := hflag
  · have hhang : fw.faults.injectTaskHang = true := hset
    rw [turn, hhang]
    rfl
  · rfl

theorem exec_beats {op : TaskOp} (hop : ∀ hang, op ≠ .beat hang) :
    weigh (TaskOp.beats flag) (fw.exec t nowMs op).2.1 +
        (fw.exec t nowMs op).2.2.countP FirmwareEvent.isHeartbeat ≤ op.beats flag := by
  cases op with
  | beat hang => exact absurd rfl (hop hang)
  | scan checksum =>
      simp only [exec]
      split <;> split <;> exact Nat.le_refl _
  | send type payload =>
      rw [exec]
      split
      · exact Nat.zero_le _
      · rw [TaskOp.beats]
        split
        · rename_i htype
          rw [htype]
          exact Nat.le_refl _
        · rename_i htype
          simp [FirmwareEvent.isHeartbeat, htype]
  | _ => exact Nat.le_refl _

theorem exec_silent (hflag : flag.Silences) (hset : fw.faults.get flag = true) (op : TaskOp) :
    weigh (TaskOp.beats flag) (fw.exec t nowMs op).2.1 +
        (fw.exec t nowMs op).2.2.countP FirmwareEvent.isHeartbeat ≤ op.beats flag := by
  cases op with
  | beat hang =>
      rw [exec]
      split
      · rename_i hgo
        obtain rfl | rfl := hflag
        · have hhang : hang = false := by simp_all
          rw [hhang]
          exact Nat.le_refl _
        · have hsafe : fw.faults.inSafeMode = true := hset
          simp [hsafe] at hgo
      · exact Nat.zero_le _
  | _ =>
      refine exec_beats fun hang hbeat => ?_
      cases hbeat

theorem countP_sending {p : FirmwareEvent → Bool} (hp : ∀ b, p (.pollOut b) = false)
    {evs : List FirmwareEvent} (hevs : ∀ type payload, .sendFrame type payload ∉ evs) :
    evs.countP p = 0 := by
  refine List.countP_eq_zero.mpr fun ev hev => ?_
  cases ev with
  | sendFrame type payload => exact absurd hev (hevs type payload)
  | pollOut b => simp [hp b]

theorem run_silent (hflag : flag.Silences) (hset : fw.faults.get flag = true) (t : Task)
    (nowMs : U32) :
    (fw.run t nowMs).2.countP FirmwareEvent.isHeartbeat +
        load (TaskOp.beats flag) (fw.run t nowMs).1.ops ≤ load (TaskOp.beats flag) fw.ops := by
  have hran := fw.run_ran t nowMs
  generalize fw.run t nowMs = next at hran ⊢
  cases hran with
  | sending hbusy hevs =>
      rw [countP_sending (fun _ => rfl) hevs, Nat.zero_add]
  | turned hidle hops =>
      have hturn : weigh (TaskOp.beats flag) (fw.turn t).2 = 0 := by
        by_cases ht : t = .heartbeat
        · rw [ht]
          exact turn_silent hflag hset
        · exact turn_beats flag ht
      dsimp only
      rw [(fw.turn_fields t).2.1, load_turned hops, hturn, List.countP_nil]
      omega
  | @executed op rest hidle hops =>
      have hexec := @exec_silent flag fw t nowMs hflag hset op
      have hload := @load_executed (TaskOp.beats flag) fw.ops t op rest hops
        (fw.exec t nowMs op).2.1
      dsimp only
      omega

theorem silent_run (hflag : flag.Silences) {during : List FirmwareInput}
    (hset : Machine.Along step (fun fw _ => fw.faults.get flag = true) fw during) :
    (Machine.outputs step fw during).countP FirmwareEvent.isHeartbeat ≤
      load (TaskOp.beats flag) fw.ops := by
  induction during generalizing fw with
  | nil => exact Nat.zero_le _
  | cons a during ih =>
      obtain ⟨hhead, htail⟩ := hset
      have hrest := ih htail
      rw [Machine.outputs_cons, List.countP_append]
      cases a with
      | task t nowMs =>
          have hstep := run_silent hflag hhead t nowMs
          simp only [step] at hrest ⊢
          omega
      | receive bytes =>
          simp only [step, List.countP_nil, Nat.zero_add]
          exact hrest

/-- Heartbeats are the heartbeat task's, and it has one at a time. -/
structure BeatsOnce (flag : Flag) (fw : Firmware) : Prop where
  owned : fw.Owned
  own : (fw.ops .heartbeat).length ≤ 1
  others : ∀ t, t ≠ .heartbeat → weigh (TaskOp.beats flag) (fw.ops t) = 0

theorem weigh_le_length {w : TaskOp → Nat} (hw : ∀ op, w op ≤ 1) (ops : List TaskOp) :
    weigh w ops ≤ ops.length := by
  induction ops with
  | nil => exact Nat.le_refl _
  | cons op ops ih =>
      have hop := hw op
      rw [weigh_cons, List.length_cons]
      omega

theorem beats_le_one (flag : Flag) (op : TaskOp) : op.beats flag ≤ 1 := by
  unfold TaskOp.beats
  split
  · split <;> decide
  · split <;> decide
  · decide

theorem BeatsOnce.load_le (h : BeatsOnce flag fw) :
    load (TaskOp.beats flag) fw.ops ≤ (fw.ops .heartbeat).length := by
  have hown := weigh_le_length (beats_le_one flag) (fw.ops .heartbeat)
  simp only [load, Task.all, List.flatMap_cons, List.flatMap_nil, weigh_append, weigh_nil,
    h.others .telemetry (by decide), h.others .faultMonitor (by decide),
    h.others .commandHandler (by decide)]
  omega

theorem exec_length {op : TaskOp} (hop : op.Of .heartbeat) :
    (fw.exec t nowMs op).2.1.length ≤ 1 := by
  cases op with
  | scan checksum => cases hop
  | beat hang =>
      rw [exec]
      split
      · exact Nat.le_refl _
      · exact Nat.zero_le _
  | send type payload =>
      rw [exec]
      split <;> exact Nat.zero_le _
  | store flag value => exact Nat.zero_le _
  | clearFaultCount => exact Nat.zero_le _
  | _ => exact Nat.le_refl _

theorem BeatsOnce.run (h : BeatsOnce flag fw) (t : Task) (nowMs : U32) :
    BeatsOnce flag (fw.run t nowMs).1 := by
  refine ⟨h.owned.run t nowMs, ?_, ?_⟩
  · have hown : ∀ t', t' = .heartbeat → (fw.ops t').length ≤ 1 := by
      rintro t' rfl
      exact h.own
    refine run_ops_keeps (P := fun t' ops => t' = .heartbeat → ops.length ≤ 1) hown ?_ ?_ _ rfl
    · rintro rfl
      exact Nat.le_refl _
    · rintro op rest hops rfl
      have hone := h.own
      rw [hops, List.length_cons] at hone
      obtain rfl := List.length_eq_zero_iff.mp (by omega : rest.length = 0)
      rw [List.append_nil]
      exact exec_length (h.owned .heartbeat op (hops ▸ List.mem_cons_self))
  · refine run_ops_keeps (P := fun t' ops => t' ≠ .heartbeat → weigh (TaskOp.beats flag) ops = 0)
      h.others (turn_beats flag) fun op rest hops ht => ?_
    have hbeat : ∀ hang, op ≠ .beat hang := by
      rintro hang rfl
      have hof : TaskOp.Of (.beat hang) t := h.owned t _ (hops ▸ List.mem_cons_self)
      exact ht hof
    have hexec := @exec_beats flag fw t nowMs op hbeat
    have hothers := h.others t ht
    rw [hops, weigh_cons] at hothers
    rw [weigh_append]
    omega

theorem beatsOnce_run (flag : Flag) (inputs : List FirmwareInput) :
    BeatsOnce flag (Machine.after step {} inputs) := by
  refine Machine.after_invariant (fun fw a h => ?_) ?_ inputs
  · cases a with
    | task t nowMs => exact h.run t nowMs
    | receive bytes => exact ⟨h.owned, h.own, h.others⟩
  · exact ⟨fun _ => List.forall_mem_nil _, Nat.zero_le _, fun _ _ => rfl⟩

/-- While the injected hang or safe mode stands, at most one heartbeat goes out, however
the tasks interleave: the one the heartbeat task was already at. -/
theorem silent_while_set {flag : Flag} (hflag : flag.Silences) (before during : List FirmwareInput)
    (hset : Machine.Along step (fun fw _ => fw.faults.get flag = true)
      (Machine.after step {} before) during) :
    (Machine.outputs step (Machine.after step {} before) during).countP
        FirmwareEvent.isHeartbeat ≤ 1 ∧
      ((Machine.after step {} before).ops .heartbeat = [] →
        ∀ ev ∈ Machine.outputs step (Machine.after step {} before) during,
          ev.isHeartbeat = false) := by
  have hrun := silent_run hflag hset
  have honce := beatsOnce_run flag before
  have hload := honce.load_le
  have hown := honce.own
  refine ⟨by omega, fun hhead => ?_⟩
  rw [hhead, List.length_nil] at hload
  have hzero := List.countP_eq_zero.mp (Nat.le_zero.mp (Nat.le_trans hrun hload))
  exact fun ev hev => Bool.eq_false_iff.mpr (hzero ev hev)

/-- The heartbeat task has read the flags when the hang is injected. -/
def hangWhileBeating : List FirmwareInput :=
  [.task .heartbeat 0, .task .heartbeat 0,
    .receive (buildCommand 1 0 safetyCmdInjectFault safetyFaultTaskHang 0 0),
    .task .commandHandler 0, .task .commandHandler 0]

theorem silent_while_set_oneMore :
    (Machine.outputs step (Machine.after step {} hangWhileBeating)
        (List.replicate 60 (.task .heartbeat 0))).countP FirmwareEvent.isHeartbeat = 1 ∧
      (Machine.outputs step (Machine.after step {} hangWhileBeating)
        (List.replicate 60 (.task .heartbeat 0))).countP FirmwareEvent.isHeartbeat ≤ 1 :=
  ⟨by decide +kernel,
    (@silent_while_set .injectTaskHang (Or.inl rfl) hangWhileBeating
      (List.replicate 60 (.task .heartbeat 0)) (by decide +kernel)).1⟩

end Firmware

/-! ### Faults -/

/-- The faults that the monitor reports. -/
inductive FaultKind
  | checksumError | critical
deriving DecidableEq, Repr

namespace FaultKind

def type : FaultKind → U8
  | .checksumError => safetyFaultChecksumError
  | .critical => safetyFaultCritical

def flag : FaultKind → Flag
  | .checksumError => .injectChecksumError
  | .critical => .injectCriticalFault

end FaultKind

/-- A frame the handler took, or what a step told. -/
inductive InjectionEvent
  | took (frame : SafetyRxFrame)
  | told (e : FirmwareEvent)

def FirmwareEvent.reports (k : FaultKind) : FirmwareEvent → Bool
  | .sendFrame type payload => type == safetyFrameFaultEvent && byteAt payload 0 == k.type
  | .pollOut _ => false

def InjectionEvent.reports (k : FaultKind) : InjectionEvent → Bool
  | .told e => e.reports k
  | .took _ => false

/-- The command to inject this fault. -/
def InjectionEvent.orders (k : FaultKind) : InjectionEvent → Bool
  | .took frame => frame.command = some safetyCmdInjectFault ∧ byteAt frame.payload 1 = k.type
  | .told _ => false

def InjectionEvent.isFault : InjectionEvent → Bool
  | .told (.sendFrame type _) => type == safetyFrameFaultEvent
  | _ => false

/-- What it says of faults, it says of one of the two. -/
def TaskOp.OfKind : TaskOp → Prop
  | .emitFault faultType _ _ => ∃ k : FaultKind, faultType = k.type
  | .send type payload => type = safetyFrameFaultEvent → ∃ k : FaultKind, byteAt payload 0 = k.type
  | _ => True

/-- The reports that will come of the operation. Setting the flag may lead to one. -/
def TaskOp.owes (k : FaultKind) : TaskOp → Nat
  | .emitFault faultType _ _ => if faultType = k.type then 1 else 0
  | .send type payload =>
      if type = safetyFrameFaultEvent ∧ byteAt payload 0 = k.type then 1 else 0
  | .store flag value => if flag = k.flag ∧ value = true then 1 else 0
  | _ => 0

namespace Firmware
variable {k : FaultKind} {fw : Firmware} {t : Task} {nowMs : U32}

def takesOf (fw : Firmware) : FirmwareInput → List SafetyRxFrame
  | .task t _ => (fw.takes t).toList
  | .receive _ => []

/-- A step, with the frame the handler takes in it. -/
def account (fw : Firmware) (a : FirmwareInput) : Firmware × List InjectionEvent :=
  ((fw.step a).1, (fw.takesOf a).map .took ++ (fw.step a).2.map .told)

/-- What the monitor has read and not yet compared. -/
def checksumRead : List TaskOp → Option Bool
  | [.scan checksum] => some checksum
  | _ => none

/-- The rises of a flag still to be seen, with its value and the one seen last. What has
been read of it comes first. -/
def rises (read : Option Bool) (value prev : Bool) : Nat :=
  match read with
  | none => (value && !prev).toNat
  | some seen => (seen && !prev).toNat + (value && !seen).toNat

theorem rises_store (read : Option Bool) (value prev new : Bool) :
    rises read new prev ≤ rises read value prev + new.toNat := by
  cases read with
  | none => revert value prev new; decide
  | some seen => revert seen value prev new; decide

def prev (fw : Firmware) : FaultKind → Bool
  | .checksumError => fw.prevChecksum
  | .critical => fw.prevCritical

/-- The critical flag is read in the step that compares it. -/
def unseen (k : FaultKind) (read : Option Bool) (fw : Firmware) : Nat :=
  rises (if k = .critical then none else read) (fw.faults.get k.flag) (fw.prev k)

/-- The reports there may still be without a further command. -/
def due (k : FaultKind) (fw : Firmware) : Nat :=
  load (TaskOp.owes k) fw.ops + unseen k (checksumRead (fw.ops .faultMonitor)) fw

/-- Setting the flag makes one rise at most, and clearing it none. -/
theorem unseen_stored {fw' : Firmware} {op : TaskOp} (read : Option Bool)
    (hget : fw'.faults.get k.flag = op.stored k.flag (fw.faults.get k.flag))
    (hprev : fw'.prev k = fw.prev k) :
    unseen k read fw' ≤ unseen k read fw +
      if op = .store k.flag true then 1 else 0 := by
  rw [unseen, unseen, hget, hprev]
  obtain hkept | hstore := op.stored_cases k.flag (fw.faults.get k.flag)
  · rw [hkept]
    exact Nat.le_add_right _ _
  · generalize op.stored k.flag (fw.faults.get k.flag) = new at hstore ⊢
    have hrise := rises_store (if k = .critical then none else read) (fw.faults.get k.flag)
      (fw.prev k) new
    subst hstore
    cases new with
    | true =>
        rw [if_pos rfl]
        exact hrise
    | false => exact Nat.le_add_right_of_le hrise

theorem exec_prev {op : TaskOp} (hop : ∀ checksum, op ≠ .scan checksum) :
    (fw.exec t nowMs op).1.prev k = fw.prev k := by
  cases op with
  | scan checksum => exact absurd rfl (hop checksum)
  | beat hang =>
      rw [exec]
      split <;> cases k <;> rfl
  | send type payload =>
      rw [exec]
      split <;> cases k <;> rfl
  | _ => cases k <;> rfl

theorem owes_send {type : U8} (h : type ≠ safetyFrameFaultEvent) (payload : List U8) :
    (TaskOp.send type payload).owes k = 0 := if_neg fun hfault => h hfault.1

/-- An operation other than a scan leads to no more reports than it stands for. -/
theorem exec_owes {op : TaskOp} (hop : ∀ checksum, op ≠ .scan checksum) (read : Option Bool) :
    weigh (TaskOp.owes k) (fw.exec t nowMs op).2.1 +
        (fw.exec t nowMs op).2.2.countP (FirmwareEvent.reports k) +
        unseen k read (fw.exec t nowMs op).1 ≤ op.owes k + unseen k read fw := by
  have hstored := @unseen_stored k fw (fw.exec t nowMs op).1 op read (exec_get op k.flag)
    (exec_prev hop)
  have hops : weigh (TaskOp.owes k) (fw.exec t nowMs op).2.1 +
        (fw.exec t nowMs op).2.2.countP (FirmwareEvent.reports k) +
        (if op = .store k.flag true then 1 else 0) ≤ op.owes k := by
    cases op with
    | scan checksum => exact absurd rfl (hop checksum)
    | beat hang =>
        rw [exec]
        split
        · rw [weigh_cons, owes_send (by decide)]
          exact Nat.le_refl _
        · exact Nat.le_refl _
    | send type payload =>
        rw [exec]
        split
        · exact Nat.zero_le _
        · simp [TaskOp.owes, FirmwareEvent.reports]
    | store flag value => simp [exec, TaskOp.owes]
    | clearFaultCount => exact Nat.le_refl _
    | emitFault faultType severity detailCode =>
        have hsame : (TaskOp.send safetyFrameFaultEvent
            (safetyFaultEventPayload faultType severity detailCode nowMs)).owes k =
              (TaskOp.emitFault faultType severity detailCode).owes k := by
          have hbyte : byteAt (safetyFaultEventPayload faultType severity detailCode nowMs) 0 =
              faultType := rfl
          simp only [TaskOp.owes, hbyte, true_and]
        rw [exec, weigh_cons, hsame]
        exact Nat.le_refl _
    | _ =>
        rw [exec, weigh_cons, owes_send (by decide)]
        exact Nat.le_refl _
  omega

/-- A scan reports the rise it has seen, and leaves the one it has not. -/
theorem exec_scan (k : FaultKind) (checksum : Bool) :
    weigh (TaskOp.owes k) (fw.exec t nowMs (.scan checksum)).2.1 +
        unseen k none (fw.exec t nowMs (.scan checksum)).1 = unseen k (some checksum) fw := by
  have hone : ∀ (b : Bool) (ops : List TaskOp),
      weigh (TaskOp.owes k) (if b then ops else []) = b.toNat * weigh (TaskOp.owes k) ops := by
    intro b ops
    cases b <;> simp
  simp only [exec, weigh_append, hone]
  cases k with
  | checksumError =>
      have hchecksum : weigh (TaskOp.owes .checksumError)
          [.emitFault safetyFaultChecksumError 1 2] = 1 := rfl
      have hcritical : weigh (TaskOp.owes .checksumError)
          [.emitFault safetyFaultCritical 2 3, .store .inSafeMode true] = 0 := rfl
      rw [hchecksum, hcritical, Nat.mul_one, Nat.mul_zero, Nat.add_zero]
      rfl
  | critical =>
      have hchecksum : weigh (TaskOp.owes .critical)
          [.emitFault safetyFaultChecksumError 1 2] = 0 := rfl
      have hcritical : weigh (TaskOp.owes .critical)
          [.emitFault safetyFaultCritical 2 3, .store .inSafeMode true] = 1 := rfl
      have hseen : ∀ b : Bool, (b && !b).toNat = 0 := by decide
      rw [hchecksum, hcritical, Nat.mul_one, Nat.mul_zero, Nat.zero_add]
      exact congrArg _ (hseen fw.faults.injectCriticalFault)

/-- A scan stands alone. -/
def ScanAlone (ops : List TaskOp) : Prop :=
  (∃ checksum, ops = [.scan checksum]) ∨ ∀ checksum, .scan checksum ∉ ops

theorem checksumRead_of_not_mem {ops : List TaskOp} (h : ∀ checksum, .scan checksum ∉ ops) :
    checksumRead ops = none := by
  unfold checksumRead
  split
  · exact absurd List.mem_cons_self (h _)
  · rfl

theorem type_of_applyInject {faultType : U8}
    (h : applyInject faultType = some (.store k.flag true)) : faultType = k.type := by
  unfold applyInject at h
  split at h
  · cases k <;> cases h
  split at h
  · rename_i htype
    cases k with
    | checksumError => exact htype
    | critical => cases h
  split at h
  · rename_i htype
    cases k with
    | checksumError => cases h
    | critical => exact htype
  · cases h

theorem handleFrame_owes (k : FaultKind) (frame : SafetyRxFrame) :
    weigh (TaskOp.owes k) (handleFrame frame) ≤
      [InjectionEvent.took frame].countP (InjectionEvent.orders k) := by
  have hhandled := handleFrame_handled frame
  generalize handleFrame frame = ops at hhandled ⊢
  cases hhandled with
  | injected flag hcommand hflag =>
      have hack : weigh (TaskOp.owes k) [sendAck frame.hdr.sequenceId] = 0 := rfl
      rw [weigh_cons, hack, TaskOp.owes]
      split
      · rename_i hk
        rw [hk.1] at hflag
        have horders : InjectionEvent.orders k (.took frame) = true :=
          decide_eq_true ⟨hcommand, type_of_applyInject hflag⟩
        rw [List.countP_cons_of_pos horders]
        exact Nat.le_add_left _ _
      · exact Nat.zero_le _
  | _ => cases k <;> exact Nat.zero_le _

theorem ofKind_send {type : U8} (h : type ≠ safetyFrameFaultEvent) (payload : List U8) :
    (TaskOp.send type payload).OfKind := fun htype => absurd htype h

theorem exec_ofKind {op : TaskOp} (hop : op.OfKind) :
    ∀ op' ∈ (fw.exec t nowMs op).2.1, op'.OfKind := by
  cases op with
  | beat hang =>
      rw [exec]
      split
      · exact List.forall_mem_singleton.mpr (ofKind_send (by decide) _)
      · exact List.forall_mem_nil _
  | scan checksum =>
      simp only [exec, List.forall_mem_append]
      constructor
      · split
        · exact List.forall_mem_singleton.mpr ⟨.checksumError, rfl⟩
        · exact List.forall_mem_nil _
      · split
        · exact List.forall_mem_cons.mpr
            ⟨⟨.critical, rfl⟩, List.forall_mem_singleton.mpr trivial⟩
        · exact List.forall_mem_nil _
  | emitFault faultType severity detailCode =>
      exact List.forall_mem_singleton.mpr fun _ => hop
  | send type payload =>
      rw [exec]
      split <;> exact List.forall_mem_nil _
  | store flag value => exact List.forall_mem_nil _
  | clearFaultCount => exact List.forall_mem_nil _
  | _ => exact List.forall_mem_singleton.mpr (ofKind_send (by decide) _)

theorem handleFrame_ofKind (frame : SafetyRxFrame) : ∀ op ∈ handleFrame frame, op.OfKind := by
  have hack : (sendAck frame.hdr.sequenceId).OfKind := ofKind_send (by decide) _
  have hnack : ∀ reason, (sendNack frame.hdr.sequenceId reason).OfKind := fun _ =>
    ofKind_send (by decide) _
  have hhandled := handleFrame_handled frame
  generalize handleFrame frame = ops at hhandled ⊢
  have hstore : ∀ flag value, (TaskOp.store flag value).OfKind := fun _ _ => trivial
  have hother : TaskOp.replyStatus.OfKind ∧ TaskOp.reportRecovery.OfKind ∧
      TaskOp.clearFaultCount.OfKind := ⟨trivial, trivial, trivial⟩
  cases hhandled <;> simp [clearAllInjects, hack, hnack, hstore, hother]

theorem turn_ofKind (fw : Firmware) (t : Task) : ∀ op ∈ (fw.turn t).2, op.OfKind := by
  unfold turn
  split
  · exact List.forall_mem_singleton.mpr trivial
  · split
    · exact List.forall_mem_nil _
    · exact List.forall_mem_singleton.mpr trivial
  · exact List.forall_mem_singleton.mpr trivial
  · split
    · exact List.forall_mem_nil _
    · exact handleFrame_ofKind _

structure Attends (fw : Firmware) : Prop where
  owned : fw.Owned
  scan : ScanAlone (fw.ops .faultMonitor)
  kinds : ∀ t, ∀ op ∈ fw.ops t, op.OfKind

theorem exec_scan_not_mem {op : TaskOp} (hop : op.Of .faultMonitor) (checksum : Bool) :
    .scan checksum ∉ (fw.exec t nowMs op).2.1 := by
  intro h
  cases op with
  | scan checksum' =>
      simp [exec] at h
  | send type payload =>
      rw [exec] at h
      split at h <;> cases h
  | store flag value => cases h
  | emitFault faultType severity detailCode => cases List.mem_singleton.mp h
  | _ => cases hop

theorem ScanAlone.rest {op : TaskOp} {rest : List TaskOp} (h : ScanAlone (op :: rest))
    (checksum : Bool) : .scan checksum ∉ rest := by
  obtain ⟨checksum', hone⟩ | hnone := h
  · rw [(List.cons.inj hone).2]
    exact List.not_mem_nil
  · exact fun hmem => hnone checksum (List.mem_cons_of_mem _ hmem)

theorem Attends.run (h : fw.Attends) (t : Task) (nowMs : U32) : (fw.run t nowMs).1.Attends := by
  refine ⟨h.owned.run t nowMs, ?_, ?_⟩
  · have hscan : ∀ t', t' = .faultMonitor → ScanAlone (fw.ops t') := by
      rintro t' rfl
      exact h.scan
    refine run_ops_keeps (P := fun t' ops => t' = .faultMonitor → ScanAlone ops) hscan ?_ ?_ _ rfl
    · rintro rfl
      exact Or.inl ⟨_, rfl⟩
    · rintro op rest hops rfl
      have hrest := h.scan
      rw [hops] at hrest
      refine Or.inr fun checksum hmem => ?_
      obtain hmem | hmem := List.mem_append.mp hmem
      · exact exec_scan_not_mem (h.owned .faultMonitor op (hops ▸ List.mem_cons_self)) _ hmem
      · exact hrest.rest checksum hmem
  · refine run_ops_keeps (P := fun _ ops => ∀ op ∈ ops, op.OfKind) h.kinds (fw.turn_ofKind t)
      fun op rest hops => ?_
    have hall := h.kinds t
    rw [hops] at hall
    obtain ⟨hop, hrest⟩ := List.forall_mem_cons.mp hall
    exact List.forall_mem_append.mpr ⟨exec_ofKind hop, hrest⟩

theorem turn_prev (fw : Firmware) (t : Task) : (fw.turn t).1.prev k = fw.prev k := by
  unfold turn
  repeat' split
  all_goals cases k <;> rfl

theorem turn_unseen (read : Option Bool) (t : Task) :
    unseen k read (fw.turn t).1 = unseen k read fw := by
  rw [unseen, unseen, turn_faults, turn_prev]

/-- The head of a loop adds only what the command asks for. -/
theorem due_turned (hidle : fw.tx t = .idle) (hops : fw.ops t = []) :
    load (TaskOp.owes k) (Function.update fw.ops t (fw.turn t).2) +
        unseen k (checksumRead (Function.update fw.ops t (fw.turn t).2 .faultMonitor)) fw ≤
      due k fw + ((fw.takes t).toList.map InjectionEvent.took).countP
        (InjectionEvent.orders k) := by
  rw [load_turned hops, due]
  cases t with
  | faultMonitor =>
      have hrises : ∀ b prev : Bool, rises (some b) b prev = rises none b prev := by decide
      have hsame : unseen k (some fw.faults.injectChecksumError) fw = unseen k none fw := by
        cases k with
        | checksumError => exact hrises _ _
        | critical => rfl
      have hscan : checksumRead (fw.turn .faultMonitor).2 =
          some fw.faults.injectChecksumError := rfl
      have hnone : checksumRead [] = none := rfl
      rw [Function.update_self, hscan, hsame, hops, hnone]
      exact Nat.le_add_right _ _
  | commandHandler =>
      rw [Function.update_of_ne (by decide), takes_at_head hidle hops]
      have hturn : weigh (TaskOp.owes k) (fw.turn .commandHandler).2 ≤
          (fw.rxMsgq.head?.toList.map InjectionEvent.took).countP (InjectionEvent.orders k) := by
        rw [turn]
        cases hqueue : fw.rxMsgq with
        | nil => exact Nat.zero_le _
        | cons frame rest => exact handleFrame_owes k frame
      omega
  | heartbeat =>
      have hturn : weigh (TaskOp.owes k) (fw.turn .heartbeat).2 = 0 := rfl
      rw [Function.update_of_ne (by decide), hturn]
      omega
  | telemetry =>
      have hturn : weigh (TaskOp.owes k) (fw.turn .telemetry).2 = 0 := by
        rw [turn]
        split <;> rfl
      rw [Function.update_of_ne (by decide), hturn]
      omega

theorem due_executed (h : fw.Attends) {op : TaskOp} {rest : List TaskOp}
    (hops : fw.ops t = op :: rest) :
    (fw.exec t nowMs op).2.2.countP (FirmwareEvent.reports k) +
      (load (TaskOp.owes k) (Function.update fw.ops t ((fw.exec t nowMs op).2.1 ++ rest)) +
        unseen k (checksumRead (Function.update fw.ops t ((fw.exec t nowMs op).2.1 ++ rest)
          .faultMonitor)) (fw.exec t nowMs op).1) ≤ due k fw := by
  have hload := @load_executed (TaskOp.owes k) fw.ops t op rest hops (fw.exec t nowMs op).2.1
  have hof := h.owned t op (hops ▸ List.mem_cons_self)
  rw [due]
  by_cases ht : t = .faultMonitor
  · subst ht
    have hscan := h.scan
    rw [hops] at hscan
    have hnone : checksumRead ((fw.exec .faultMonitor nowMs op).2.1 ++ rest) = none :=
      checksumRead_of_not_mem fun checksum hmem => (List.mem_append.mp hmem).elim
        (exec_scan_not_mem hof checksum) (hscan.rest checksum)
    rw [Function.update_self, hnone, hops]
    obtain ⟨checksum, hone⟩ | hnot := hscan
    · obtain ⟨rfl, rfl⟩ := List.cons.inj hone
      have hexec := @exec_scan fw .faultMonitor nowMs k checksum
      have hread : checksumRead [.scan checksum] = some checksum := rfl
      have hevs : (fw.exec .faultMonitor nowMs (.scan checksum)).2.2 = [] := rfl
      have howes : (TaskOp.scan checksum).owes k = 0 := rfl
      rw [hread, hevs, List.countP_nil]
      omega
    · have hop : ∀ checksum, op ≠ .scan checksum := by
        rintro checksum rfl
        exact hnot checksum List.mem_cons_self
      have hexec := @exec_owes k fw .faultMonitor nowMs op hop none
      rw [checksumRead_of_not_mem hnot]
      omega
  · have hop : ∀ checksum, op ≠ .scan checksum := by
      rintro checksum rfl
      exact ht hof
    have hexec := @exec_owes k fw t nowMs op hop (checksumRead (fw.ops .faultMonitor))
    rw [Function.update_of_ne (Ne.symm ht)]
    omega

theorem due_run (h : fw.Attends) (t : Task) (nowMs : U32) :
    (fw.run t nowMs).2.countP (FirmwareEvent.reports k) + due k (fw.run t nowMs).1 ≤
      due k fw + ((fw.takes t).toList.map InjectionEvent.took).countP
        (InjectionEvent.orders k) := by
  have hran := fw.run_ran t nowMs
  generalize fw.run t nowMs = next at hran ⊢
  cases hran with
  | sending hbusy hevs =>
      rw [countP_sending (fun _ => rfl) hevs, Nat.zero_add]
      exact Nat.le_add_right _ _
  | turned hidle hops =>
      have hturned := @due_turned k fw t hidle hops
      rw [← turn_unseen _ t, ← (fw.turn_fields t).2.1] at hturned
      rw [List.countP_nil, Nat.zero_add]
      exact hturned
  | executed hidle hops => exact Nat.le_trans (due_executed h hops) (Nat.le_add_right _ _)

theorem countP_reports (evs : List FirmwareEvent) :
    (evs.map InjectionEvent.told).countP (InjectionEvent.reports k) =
      evs.countP (FirmwareEvent.reports k) := List.countP_map

theorem Attends.reported (h : fw.Attends) {ev : FirmwareEvent} (hev : ev ∈ (fw.run t nowMs).2)
    (hfault : (InjectionEvent.told ev).isFault = true) :
    ∃ k, (InjectionEvent.told ev).reports k = true := by
  cases ev with
  | pollOut b => cases hfault
  | sendFrame type payload =>
      have htype : type = safetyFrameFaultEvent := eq_of_beq hfault
      obtain ⟨k, hk⟩ := h.kinds t _ (send_mem_of_sendFrame hev) htype
      refine ⟨k, ?_⟩
      simp [InjectionEvent.reports, FirmwareEvent.reports, htype, hk]

/-- What has been reported and what may still be without a command is no more than what
was ordered. -/
structure Accounted (log : List InjectionEvent) (fw : Firmware) : Prop where
  attends : fw.Attends
  balance : ∀ k, log.countP (InjectionEvent.reports k) + due k fw ≤
    log.countP (InjectionEvent.orders k)
  kinds : ∀ e ∈ log, e.isFault = true → ∃ k, e.reports k = true

theorem Accounted.step {log : List InjectionEvent} (h : Accounted log fw) (a : FirmwareInput) :
    Accounted (log ++ (fw.account a).2) (fw.account a).1 := by
  have htook : ∀ (k : FaultKind) (frames : List SafetyRxFrame),
      (frames.map InjectionEvent.took).countP (InjectionEvent.reports k) = 0 := by
    intro k frames
    rw [List.countP_map]
    exact List.countP_eq_zero.mpr fun _ _ => Bool.false_ne_true
  have htold : ∀ (k : FaultKind) (evs : List FirmwareEvent),
      (evs.map InjectionEvent.told).countP (InjectionEvent.orders k) = 0 := by
    intro k evs
    rw [List.countP_map]
    exact List.countP_eq_zero.mpr fun _ _ => Bool.false_ne_true
  cases a with
  | task t nowMs =>
      refine ⟨h.attends.run t nowMs, fun k => ?_, ?_⟩
      · have hbalance := h.balance k
        have hdue := @due_run k fw h.attends t nowMs
        simp only [account, takesOf, Firmware.step, List.countP_append, htook, htold,
          countP_reports]
        omega
      · refine List.forall_mem_append.mpr ⟨h.kinds, List.forall_mem_append.mpr ⟨?_, ?_⟩⟩
        · intro e he hfault
          obtain ⟨frame, -, rfl⟩ := List.mem_map.mp he
          cases hfault
        · intro e he hfault
          obtain ⟨ev, hev, rfl⟩ := List.mem_map.mp he
          exact h.attends.reported hev hfault
  | receive bytes =>
      have hnone : (fw.account (.receive bytes)).2 = [] := rfl
      rw [hnone, List.append_nil]
      exact ⟨⟨h.attends.owned, h.attends.scan, h.attends.kinds⟩, h.balance, h.kinds⟩

/-- However the tasks interleave, the firmware reports checksum and critical faults only,
and each at most as often as the handler took the command to inject it. -/
theorem faults_were_injected (inputs : List FirmwareInput) :
    (∀ k, (Machine.outputs account {} inputs).countP (InjectionEvent.reports k) ≤
        (Machine.outputs account {} inputs).countP (InjectionEvent.orders k)) ∧
      ∀ e ∈ Machine.outputs account {} inputs, e.isFault = true → ∃ k, e.reports k = true := by
  have hinit : Accounted [] {} := by
    refine ⟨⟨fun _ => List.forall_mem_nil _, ?_, fun _ => List.forall_mem_nil _⟩, fun k => ?_,
      List.forall_mem_nil _⟩
    · exact Or.inr fun _ => List.not_mem_nil
    · cases k <;> exact Nat.le_refl _
  have hrun := Machine.run_history (P := fun _ log fw => Accounted log fw)
    (fun _ _ _ a h => h.step a) hinit inputs
  exact ⟨fun k => Nat.le_trans (Nat.le_add_right _ _) (hrun.balance k), hrun.kinds⟩

end Firmware

end SafetyCopro
