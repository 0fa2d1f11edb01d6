import SafetyCopro.Driver.Counters
import SafetyCopro.Driver.TxQueue

/-!
The two calls that take frames out of the device. Both take the frame out of its
queue first and look at the buffer of the call then; a call that fails over the
buffer has lost the frame. On an empty queue they fail and keep everything.
-/

namespace SafetyCopro

/-- `read` and `POP_TX_FRAME`. -/
def DevOp.Consumes : DevOp → Prop
  | .read .. => True
  | .ioctl (.popTxFrame _) => True
  | _ => False

theorem Queueable.length_pos {frame : List U8} (h : Queueable frame) : 0 < frame.length :=
  Nat.lt_of_lt_of_le (by decide) h.1.length_le.1

namespace SafetyCoproDev

/-- A call that takes frames out leaves both queues as they are when it fails. -/
def KeepsOnError (dev : SafetyCoproDev) (input : DevOp × Context) : Prop :=
  input.1.Consumes → ∀ e, (dev.call input.2 input.1).result = .error e →
    (dev.call input.2 input.1).dev.rxFifo = dev.rxFifo ∧
      (dev.call input.2 input.1).dev.txFifo = dev.txFifo

/-- There is a frame to take out, and the buffer is too short for it or cannot be
written. -/
def FailsOnBuffer (dev : SafetyCoproDev) : DevOp → Prop
  | .read count _ fault => ∃ slot ∈ dev.rxFifo.head?, count < slot.length ∨ fault
  | .ioctl (.popTxFrame fault) => dev.txFifo ≠ [] ∧ fault
  | _ => False

instance (dev : SafetyCoproDev) : (op : DevOp) → Decidable (dev.FailsOnBuffer op)
  | .read _ _ _ => inferInstanceAs (Decidable (∃ slot ∈ dev.rxFifo.head?, _))
  | .ioctl (.popTxFrame _) => inferInstanceAs (Decidable (_ ∧ _))
  | .write _ _ | .poll | .hbTimer | .recoveryWork => .isFalse id
  | .ioctl (.getStats _) | .ioctl .resetStats | .ioctl (.setHbTimeoutMs _)
  | .ioctl (.getState _) | .ioctl .forceRecovery | .ioctl (.injectFault _)
  | .ioctl (.pushRxFrame _) | .ioctl .unknown => .isFalse id

/-- No slot is empty. -/
structure Slotted (dev : SafetyCoproDev) : Prop where
  rx : ∀ slot ∈ dev.rxFifo, 0 < slot.length
  tx : ∀ slot ∈ dev.txFifo, 0 < slot.length

variable {dev : SafetyCoproDev} {ctx : Context}

theorem slotted_init {hbTimeoutMs : U32} {fifoDepth cpus : Nat}
    (h : safetyCoproInit hbTimeoutMs fifoDepth cpus = some dev) : dev.Slotted := by
  obtain ⟨hrx, htx⟩ := init_fifos h
  refine ⟨?_, ?_⟩
  · rw [hrx]
    exact List.forall_mem_nil _
  · rw [htx]
    exact List.forall_mem_nil _

/-- A call that does not read puts frames behind the others. -/
theorem call_grows {op : DevOp} (hop : ∀ count nonblock fault, op ≠ .read count nonblock fault) :
    ∃ frames, (∀ f ∈ frames, 0 < f.length) ∧
      (dev.call ctx op).dev.rxFifo = dev.rxFifo ++ frames := by
  have hrx : (dev.call ctx op).dev.rxFifo = (dev.queues.apply (dev.queueOp ctx op)).rx :=
    congrArg Queues.rx (call_queues ctx op)
  have hkept : ∃ frames : List (List U8), (∀ f ∈ frames, 0 < f.length) ∧
      dev.rxFifo = dev.rxFifo ++ frames :=
    ⟨[], List.forall_mem_nil _, (List.append_nil _).symm⟩
  have hpushed : ∀ frame, 0 < frame.length → ∃ frames : List (List U8),
      (∀ f ∈ frames, 0 < f.length) ∧
        (dev.queues.apply (.pushRx frame)).rx = dev.rxFifo ++ frames := by
    intro frame hframe
    by_cases hroom : dev.queues.rx.length < dev.queues.depth
    · rw [Queues.apply_pushRx frame hroom]
      exact ⟨[frame], List.forall_mem_singleton.mpr hframe, rfl⟩
    · rw [Queues.apply_pushRx_full frame (Nat.not_lt.mp hroom)]
      exact hkept
  have heffect := dev.queueOp_effect ctx op
  rw [hrx]
  generalize dev.queueOp ctx op = q at heffect ⊢
  cases heffect with
  | written hmax hvalid =>
      rw [Queues.apply_pushTx_rx]
      exact hkept
  | popped fault => exact hkept
  | read count nonblock fault => exact absurd rfl (hop count nonblock fault)
  | pushed hframe => exact hpushed _ hframe.length_pos
  | made op s => exact hpushed _ (synthFrame_length ctx s).1
  | kept op => exact hkept

theorem Slotted.call (h : dev.Slotted) (ctx : Context) (op : DevOp) :
    (dev.call ctx op).dev.Slotted := by
  have hqueues := @call_queues dev ctx op
  refine ⟨?_, ?_⟩
  · by_cases hop : ∀ count nonblock fault, op ≠ .read count nonblock fault
    · obtain ⟨frames, hframes, hrx⟩ := @call_grows dev ctx op hop
      rw [hrx]
      exact fun slot hslot => (List.mem_append.mp hslot).elim (h.rx slot) (hframes slot)
    · push Not at hop
      obtain ⟨count, nonblock, fault, rfl⟩ := hop
      have hrx : (dev.call ctx (.read count nonblock fault)).dev.rxFifo = dev.rxFifo.tail :=
        congrArg Queues.rx hqueues
      rw [hrx]
      exact fun slot hslot => h.rx slot (List.mem_of_mem_tail hslot)
  · intro slot hslot
    have htx : (dev.call ctx op).dev.txFifo = (dev.queues.apply (dev.queueOp ctx op)).tx :=
      congrArg Queues.tx hqueues
    rw [htx] at hslot
    obtain hslot | ⟨hpush, -⟩ := mem_apply_tx hslot
    · exact h.tx slot hslot
    · have hvalid := (@queueOp_pushTx dev (op, ctx) slot hpush).2.2
      exact Nat.lt_of_lt_of_le (by decide) (safetyFrameValidate_ok_iff.mp hvalid).header

/-! ### One call -/

theorem read_keepsOnError_iff (h : dev.Slotted) (count : Nat) (nonblock fault : Bool) :
    dev.KeepsOnError (.read count nonblock fault, ctx) ↔
      ¬ dev.FailsOnBuffer (.read count nonblock fault) := by
  cases hrx : dev.rxFifo with
  | nil =>
      have hread := safetyRead_empty hrx count nonblock fault
      have hnone : ¬ dev.FailsOnBuffer (.read count nonblock fault) := by
        rintro ⟨slot, hslot, -⟩
        rw [hrx] at hslot
        cases hslot
      refine iff_of_true (fun _ e _ => ?_) hnone
      rw [call, reply_dev, hread]
      exact ⟨rfl, rfl⟩
  | cons slot rest =>
      have hslot : 0 < slot.length := h.rx slot (hrx ▸ List.mem_cons_self)
      have hread := safetyRead_slot hrx hslot count nonblock fault
      have hfails : dev.FailsOnBuffer (.read count nonblock fault) ↔
          count < slot.length ∨ fault := by
        simp [FailsOnBuffer, hrx]
      have hlost : (dev.call ctx (.read count nonblock fault)).dev.rxFifo ≠ dev.rxFifo := by
        rw [call, reply_dev, hread, hrx]
        exact (List.cons_ne_self slot rest).symm
      rw [hfails]
      constructor
      · intro hkeeps hfail
        have herror : ∃ e, (dev.call ctx (.read count nonblock fault)).result = .error e := by
          rw [call, hread]
          by_cases hcount : count < slot.length
          · exact ⟨.einval, by simp only [Outcome.reply, if_pos hcount]; rfl⟩
          · have hfault : fault = true := hfail.resolve_left hcount
            exact ⟨.efault, by simp only [Outcome.reply, if_neg hcount, if_pos hfault]; rfl⟩
        obtain ⟨e, he⟩ := herror
        exact hlost (hkeeps trivial e he).1
      · intro hfine _ e he
        rw [not_or] at hfine
        rw [call, hread, Outcome.reply] at he
        simp only [if_neg hfine.1, if_neg hfine.2] at he
        cases he

theorem popTxFrame_keepsOnError_iff (h : dev.Slotted) (fault : Bool) :
    dev.KeepsOnError (.ioctl (.popTxFrame fault), ctx) ↔
      ¬ dev.FailsOnBuffer (.ioctl (.popTxFrame fault)) := by
  cases htx : dev.txFifo with
  | nil =>
      have hnone : ¬ dev.FailsOnBuffer (.ioctl (.popTxFrame fault)) := fun hfail => hfail.1 htx
      refine iff_of_true (fun _ e _ => ?_) hnone
      rw [call, safetyIoctl, fifoPopTxFrame, htx]
      exact ⟨rfl, htx⟩
  | cons slot rest =>
      have hslot : 0 < slot.length := h.tx slot (htx ▸ List.mem_cons_self)
      have hpop : dev.call ctx (.ioctl (.popTxFrame fault)) =
          { dev := { dev with txFifo := rest }
            result := if fault then .error .efault else .ok (.frame slot) } := by
        rw [call, safetyIoctl, fifoPopTxFrame, htx]
        simp only [if_neg (Nat.ne_of_gt hslot)]
        split <;> rfl
      have hfails : dev.FailsOnBuffer (.ioctl (.popTxFrame fault)) ↔ fault := by
        simp [FailsOnBuffer, htx]
      simp only [hfails, KeepsOnError, hpop]
      cases fault with
      | false =>
          simp only [Bool.false_eq_true, if_false, not_false_eq_true, iff_true]
          intro _ e he
          cases he
      | true =>
          simp only [if_true, not_true_eq_false, iff_false]
          intro hkeeps
          have hlost := (hkeeps trivial .efault rfl).2
          rw [htx] at hlost
          exact List.cons_ne_self slot rest hlost.symm

/-- A call keeps what it should exactly when it does not fail over its buffer. -/
theorem keepsOnError_iff (h : dev.Slotted) (input : DevOp × Context) :
    dev.KeepsOnError input ↔ ¬ dev.FailsOnBuffer input.1 := by
  obtain ⟨op, ctx⟩ := input
  cases op with
  | read count nonblock fault => exact read_keepsOnError_iff h count nonblock fault
  | ioctl cmd =>
      cases cmd with
      | popTxFrame fault => exact popTxFrame_keepsOnError_iff h fault
      | _ => exact ⟨fun _ hfail => hfail, fun _ hconsumes => hconsumes.elim⟩
  | _ => exact ⟨fun _ hfail => hfail, fun _ hconsumes => hconsumes.elim⟩

/-! ### Runs -/

theorem arrivals_auditStep (input : DevOp × Context) :
    (dev.auditStep input).2.filterMap RxAudit.arrival =
      (dev.call input.2 input.1).dev.rxFifo.drop dev.rxFifo.length := by
  have hofCall : ∀ op result, (RxAudit.ofCall op result).filterMap RxAudit.arrival = [] := by
    intro op result
    rw [RxAudit.ofCall.eq_def]
    split <;> rfl
  rw [auditStep, List.filterMap_append, hofCall, List.append_nil, List.filterMap_map]
  exact List.filterMap_some

theorem departures_auditStep (input : DevOp × Context) :
    (dev.auditStep input).2.filterMap RxAudit.departure =
      (RxAudit.ofCall input.1 (dev.call input.2 input.1).result).filterMap RxAudit.departure := by
  have hnone : ∀ frames : List (List U8),
      (frames.map RxAudit.accepted).filterMap RxAudit.departure = [] := by
    intro frames
    rw [List.filterMap_map, List.filterMap_eq_nil_iff]
    exact fun _ _ => rfl
  rw [auditStep, List.filterMap_append, hnone, List.nil_append]

/-- Without a loss, what a step takes out and what is left is what was there and
what it put in. -/
theorem auditStep_conserves (h : dev.Slotted) {input : DevOp × Context}
    (hfine : ¬ dev.FailsOnBuffer input.1) :
    (dev.auditStep input).2.filterMap RxAudit.departure ++ (dev.auditStep input).1.rxFifo =
      dev.rxFifo ++ (dev.auditStep input).2.filterMap RxAudit.arrival := by
  obtain ⟨op, ctx⟩ := input
  rw [arrivals_auditStep, departures_auditStep]
  by_cases hop : ∀ count nonblock fault, op ≠ .read count nonblock fault
  · obtain ⟨frames, -, hrx⟩ := @call_grows dev ctx op hop
    have hdeparted : (RxAudit.ofCall op (dev.call ctx op).result).filterMap RxAudit.departure =
        [] := by
      rw [RxAudit.ofCall.eq_def]
      split
      · exact absurd rfl (hop _ _ _)
      · rfl
      · rfl
    simp only [auditStep, hdeparted, hrx, List.nil_append, List.drop_left]
  · push Not at hop
    obtain ⟨count, nonblock, fault, rfl⟩ := hop
    cases hrx : dev.rxFifo with
    | nil =>
        simp only [auditStep, call, safetyRead_empty hrx, Outcome.reply, hrx]
        rfl
    | cons slot rest =>
        have hslot : 0 < slot.length := h.rx slot (hrx ▸ List.mem_cons_self)
        have hbuffer : ¬ (count < slot.length ∨ fault) := by
          intro hfail
          exact hfine ⟨slot, by rw [hrx]; rfl, hfail⟩
        rw [not_or] at hbuffer
        simp only [auditStep, call, safetyRead_slot hrx hslot, Outcome.reply, if_neg hbuffer.1,
          if_neg hbuffer.2, List.length_cons]
        rw [List.drop_of_length_le (Nat.le_succ _), List.append_nil]
        rfl

end SafetyCoproDev

/-- The calls that take frames out leave the queues alone when they fail, and so
what the reads returned and what is still queued is what was put into the RX
queue, exactly as long as no call fails over its buffer with a frame to take
out. -/
theorem consumers_keep_iff {hbTimeoutMs : U32} {fifoDepth cpus : Nat} {dev : SafetyCoproDev}
    (h : safetyCoproInit hbTimeoutMs fifoDepth cpus = some dev) (inputs : List (DevOp × Context)) :
    (Machine.Along SafetyCoproDev.auditStep SafetyCoproDev.KeepsOnError dev inputs ∧
      (Machine.outputs SafetyCoproDev.auditStep dev inputs).filterMap RxAudit.departure ++
          (Machine.after SafetyCoproDev.auditStep dev inputs).rxFifo =
        (Machine.outputs SafetyCoproDev.auditStep dev inputs).filterMap RxAudit.arrival) ↔
      Machine.Along SafetyCoproDev.auditStep (fun dev input => ¬ dev.FailsOnBuffer input.1) dev
        inputs := by
  have hslotted : ∀ (dev : SafetyCoproDev) (input : DevOp × Context), dev.Slotted →
      (dev.auditStep input).1.Slotted :=
    fun dev input hdev => hdev.call input.2 input.1
  have hiff := Machine.along_congr hslotted (SafetyCoproDev.slotted_init h) inputs
    (fun dev input _ hdev => SafetyCoproDev.keepsOnError_iff hdev input)
  rw [hiff]
  refine ⟨fun hrun => hrun.1, fun hfine => ⟨hfine, ?_⟩⟩
  have hrun := Machine.outputs_of_along
    (P := fun events (dev : SafetyCoproDev) => dev.Slotted ∧
      events.filterMap RxAudit.departure ++ dev.rxFifo = events.filterMap RxAudit.arrival)
    (fun events dev input ⟨hdev, hevents⟩ hinput => ⟨hslotted dev input hdev, ?_⟩)
    ⟨SafetyCoproDev.slotted_init h, (SafetyCoproDev.init_fifos h).1⟩ hfine
  · exact hrun.2
  · rw [List.filterMap_append, List.filterMap_append, List.append_assoc,
      SafetyCoproDev.auditStep_conserves hdev hinput, ← hevents, List.append_assoc]

/-- A heartbeat is pushed and read with room for `count` bytes. -/
def pushAndRead (count : Nat) : List (DevOp × Context) :=
  [(.ioctl (.pushRxFrame (some (packFrame safetyFrameHeartbeat 1 0 []))), {}),
    (.read count true false, {})]

/-- The first call queues the frame, the second fails and the frame is gone. -/
theorem read_loses_frame :
    ∃ dev, safetyCoproInit 0 0 1 = some dev ∧
      ¬ Machine.Along SafetyCoproDev.auditStep SafetyCoproDev.KeepsOnError dev (pushAndRead 1) ∧
      Machine.outputs SafetyCoproDev.auditStep dev (pushAndRead 1) =
        [.accepted (packFrame safetyFrameHeartbeat 1 0 [])] ∧
      (Machine.after SafetyCoproDev.auditStep dev (pushAndRead 1)).rxFifo = [] := by
  refine ⟨_, rfl, ?_, by decide +kernel, by decide +kernel⟩
  rintro ⟨-, hread, -⟩
  exact absurd (hread trivial .einval (by decide +kernel)).1 (by decide +kernel)

theorem consumers_keep_heartbeat :
    ∃ dev, safetyCoproInit 0 0 1 = some dev ∧
      (Machine.outputs SafetyCoproDev.auditStep dev (pushAndRead 1024)).filterMap
          RxAudit.departure ++
        (Machine.after SafetyCoproDev.auditStep dev (pushAndRead 1024)).rxFifo =
      (Machine.outputs SafetyCoproDev.auditStep dev (pushAndRead 1024)).filterMap
        RxAudit.arrival :=
  ⟨_, rfl, ((@consumers_keep_iff 0 0 1 _ rfl (pushAndRead 1024)).mpr (by decide +kernel)).2⟩

end SafetyCopro
