import SafetyCopro.Firmware.Operations
import SafetyCopro.Firmware.Transmitter

/-!
A turn of a task's loop that no other task interrupts. It comes to an end: what
the task still has to do shrinks with every step.
-/

namespace SafetyCopro

/-- No fewer steps than the operation takes, its frames included. -/
def TaskOp.work : TaskOp → Nat
  | .send _ payload => payload.length + 19
  | .store _ _ => 1
  | .clearFaultCount => 1
  | .scan _ => 58
  | _ => 28

def totalWork : List TaskOp → Nat
  | [] => 0
  | op :: ops => op.work + totalWork ops

theorem totalWork_append (ops ops' : List TaskOp) :
    totalWork (ops ++ ops') = totalWork ops + totalWork ops' := by
  induction ops with
  | nil => exact (Nat.zero_add _).symm
  | cons op ops ih => rw [List.cons_append, totalWork, totalWork, ih, Nat.add_assoc]

def TxPhase.work : TxPhase → Nat
  | .idle => 0
  | .locking frame => frame.length + 2
  | .putting bytes => bytes.length + 1

namespace Firmware

def AtHead (fw : Firmware) (t : Task) : Prop := fw.tx t = .idle ∧ fw.ops t = []

instance (fw : Firmware) (t : Task) : Decidable (fw.AtHead t) :=
  inferInstanceAs (Decidable (_ ∧ _))

def work (fw : Firmware) (t : Task) : Nat :=
  totalWork (fw.ops t) + (fw.tx t).work

/-- The task goes on alone, for `n` steps or until it is at the head of its loop. -/
def finish (t : Task) (nowMs : U32) : Nat → Firmware → Firmware × List FirmwareEvent
  | 0, fw => (fw, [])
  | n + 1, fw =>
      if fw.AtHead t then (fw, [])
      else
        let (fw, evs) := fw.run t nowMs
        let (fw, evs') := finish t nowMs n fw
        (fw, evs ++ evs')

/-- A turn of the task's loop, from its head to its end. -/
def complete (fw : Firmware) (t : Task) (nowMs : U32) : Firmware × List FirmwareEvent :=
  let (fw, evs) := fw.run t nowMs
  let (fw, evs') := finish t nowMs (fw.work t) fw
  (fw, evs ++ evs')

/-- The other tasks are at the heads of their loops. -/
structure Alone (fw : Firmware) (t : Task) : Prop where
  sound : fw.TxSound
  others : ∀ t', t' ≠ t → fw.AtHead t'

structure Resting (fw : Firmware) : Prop where
  sound : fw.TxSound
  tasks : ∀ t, fw.AtHead t

theorem resting_init : Resting {} := ⟨txSound_init, fun _ => ⟨rfl, rfl⟩⟩

theorem Resting.alone {fw : Firmware} (h : fw.Resting) (t : Task) : fw.Alone t :=
  ⟨h.sound, fun t' _ => h.tasks t'⟩

theorem Alone.resting {fw : Firmware} {t : Task} (h : fw.Alone t) (ht : fw.AtHead t) :
    fw.Resting := by
  refine ⟨h.sound, fun t' => ?_⟩
  by_cases htt : t' = t
  · rwa [htt]
  · exact h.others t' htt

variable {fw : Firmware} {t : Task} {nowMs : U32}

theorem Alone.run (h : fw.Alone t) (nowMs : U32) : (fw.run t nowMs).1.Alone t := by
  refine ⟨(h.sound.run t nowMs).1, fun t' ht => ?_⟩
  rw [AtHead, run_tx_of_ne ht, run_ops_of_ne ht]
  exact h.others t' ht

theorem Alone.mutex_free (h : fw.Alone t) {frame : List U8} (htx : fw.tx t = .locking frame) :
    fw.txMutex = none := by
  cases howner : fw.txMutex with
  | none => rfl
  | some t' =>
      obtain ⟨bytes, hbytes⟩ := h.sound.held t' howner
      by_cases ht : t' = t
      · rw [ht, htx] at hbytes
        cases hbytes
      · rw [(h.others t' ht).1] at hbytes
        cases hbytes

/-- An operation leaves less to do than it is. -/
theorem exec_work (hidle : fw.tx t = .idle) (op : TaskOp) :
    totalWork (fw.exec t nowMs op).2.1 + ((fw.exec t nowMs op).1.tx t).work < op.work := by
  have hzero : (fw.tx t).work = 0 := by rw [hidle]; rfl
  have hsend : ∀ {type : U8} {payload : List U8}, payload.length = 8 →
      totalWork [.send type payload] + (fw.tx t).work < 28 := by
    intro type payload hlen
    simp [hzero, totalWork, TaskOp.work, hlen]
  cases op with
  | send type payload =>
      by_cases hfits : payload.length ≤ safetyMaxPayload
      · have hexec : (fw.exec t nowMs (.send type payload)).2.1 = [] ∧
            (fw.exec t nowMs (.send type payload)).1.tx t =
              .locking (packFrame type (BitVec.ofNat 16 fw.txSequence) nowMs payload) := by
          rw [exec, safetySendFrame_eq _ _ _ hfits]
          exact ⟨rfl, Function.update_self ..⟩
        have hlen : (packFrame type (BitVec.ofNat 16 fw.txSequence) nowMs payload).length =
            safetyHeaderSize + payload.length := by
          rw [packFrame, List.length_append, toBytes_length]
        have h16 : safetyHeaderSize = 16 := rfl
        rw [hexec.1, hexec.2, TxPhase.work, TaskOp.work, hlen, totalWork]
        omega
      · rw [exec, safetySendFrame, if_pos (Nat.not_le.mp hfits)]
        simp [hzero, totalWork, TaskOp.work]
  | beat hang =>
      rw [exec]
      split
      · exact hsend rfl
      · simp [hzero, totalWork, TaskOp.work]
  | scan checksum =>
      simp only [exec]
      repeat' split
      all_goals simp [hzero, totalWork, TaskOp.work]
  | store flag value => simp [exec, hzero, totalWork, TaskOp.work]
  | clearFaultCount => simp [exec, hzero, totalWork, TaskOp.work]
  | _ => exact hsend rfl

theorem work_pos (ht : ¬ fw.AtHead t) : 0 < fw.work t := by
  rw [work]
  cases htx : fw.tx t with
  | locking frame => exact Nat.add_pos_right _ (Nat.succ_pos _)
  | putting bytes => exact Nat.add_pos_right _ (Nat.succ_pos _)
  | idle =>
      cases hops : fw.ops t with
      | nil => exact absurd ⟨htx, hops⟩ ht
      | cons op rest =>
          refine Nat.add_pos_left (Nat.add_pos_left ?_ _) _
          cases op <;> exact Nat.succ_pos _

/-- Away from the head of its loop, and with the mutex free when it asks for it,
a task has less to do with every step. -/
theorem run_work (ht : ¬ fw.AtHead t)
    (hfree : ∀ frame, fw.tx t = .locking frame → fw.txMutex = none) :
    (fw.run t nowMs).1.work t < fw.work t := by
  rw [work, work]
  cases htx : fw.tx t with
  | locking frame =>
      simp [Firmware.run, htx, hfree frame htx, TxPhase.work]
  | putting bytes =>
      cases bytes <;> simp [Firmware.run, htx, TxPhase.work]
  | idle =>
      cases hops : fw.ops t with
      | nil => exact absurd ⟨htx, hops⟩ ht
      | cons op rest =>
          have hop := @exec_work fw t nowMs htx op
          rw [run_of_ops htx hops]
          dsimp only
          rw [Function.update_self, totalWork_append, totalWork]
          omega

theorem Alone.run_work (h : fw.Alone t) (ht : ¬ fw.AtHead t) :
    (fw.run t nowMs).1.work t < fw.work t :=
  Firmware.run_work ht fun _ htx => h.mutex_free htx

theorem Alone.finish (h : fw.Alone t) {n : Nat} (hn : fw.work t ≤ n) :
    (Firmware.finish t nowMs n fw).1.Alone t ∧ (Firmware.finish t nowMs n fw).1.AtHead t := by
  induction n generalizing fw with
  | zero =>
      refine ⟨h, ?_⟩
      by_contra ht
      have hless := @Alone.run_work fw t nowMs h ht
      rw [Nat.le_zero.mp hn] at hless
      cases hless
  | succ n ih =>
      rw [Firmware.finish]
      by_cases ht : fw.AtHead t
      · rw [if_pos ht]
        exact ⟨h, ht⟩
      · rw [if_neg ht]
        have hless := @Alone.run_work fw t nowMs h ht
        exact ih (h.run nowMs) (by omega)

/-- After a turn that no other task interrupts, all tasks rest again. -/
theorem Resting.complete (h : fw.Resting) (t : Task) (nowMs : U32) :
    (fw.complete t nowMs).1.Resting := by
  obtain ⟨halone, ht⟩ := @Alone.finish _ t nowMs ((h.alone t).run nowMs) _ (Nat.le_refl _)
  exact halone.resting ht

/-- What a step of the task keeps, its turn keeps. -/
theorem finish_rule {P : List FirmwareEvent → Firmware → Prop}
    (hstep : ∀ evs fw, P evs fw → ¬ fw.AtHead t → P (evs ++ (fw.run t nowMs).2) (fw.run t nowMs).1)
    (n : Nat) {evs : List FirmwareEvent} (h : P evs fw) :
    P (evs ++ (Firmware.finish t nowMs n fw).2) (Firmware.finish t nowMs n fw).1 := by
  induction n generalizing fw evs with
  | zero => rwa [Firmware.finish, List.append_nil]
  | succ n ih =>
      rw [Firmware.finish]
      by_cases ht : fw.AtHead t
      · rwa [if_pos ht, List.append_nil]
      · rw [if_neg ht]
        dsimp only
        rw [← List.append_assoc]
        exact ih (hstep evs fw h ht)

end Firmware

end SafetyCopro
