import SafetyCopro.Driver.Queues
import SafetyCopro.Lib.Machine
import SafetyCopro.Protocol.Streams

/-!
What the TX queue holds. `safety_write` asks `safety_frame_validate` about the
buffer, which accepts a frame with any bytes behind it, and queues the buffer as
it is. The other way into the device compares the lengths.
-/

namespace SafetyCopro

/-- Every slot holds one frame and nothing else. -/
def TxValid (dev : SafetyCoproDev) : Prop := ∀ slot ∈ dev.txFifo, ValidFrame slot

instance (dev : SafetyCoproDev) : Decidable (TxValid dev) :=
  inferInstanceAs (Decidable (∀ slot ∈ dev.txFifo, ValidFrame slot))

/-- Of a buffer the call validates and finds room for, nothing is left behind
the frame. -/
def WritesOneFrame (dev : SafetyCoproDev) (input : DevOp × Context) : Prop :=
  ∀ ubuf, input.1 = .write ubuf false → ubuf.length ≤ safetyMaxFrameSize →
    safetyFrameValidate ubuf = .ok → dev.txFifo.length < dev.fifoDepth →
    ubuf.length = safetyHeaderSize + announced ubuf

namespace SafetyCoproDev
variable {dev : SafetyCoproDev}

/-- Only `write` puts frames into the TX queue. -/
theorem queueOp_pushTx {input : DevOp × Context} {slot : List U8}
    (h : dev.queueOp input.2 input.1 = .pushTx slot) :
    input.1 = .write slot false ∧ slot.length ≤ safetyMaxFrameSize ∧
      safetyFrameValidate slot = .ok := by
  have heffect := dev.queueOp_effect input.2 input.1
  rw [h] at heffect
  generalize input.1 = op at heffect ⊢
  cases heffect with
  | written hmax hvalid => exact ⟨rfl, hmax, hvalid⟩

theorem mem_apply_tx {q : Queues} {op : QueueOp} {slot : List U8} (h : slot ∈ (q.apply op).tx) :
    slot ∈ q.tx ∨ (op = .pushTx slot ∧ q.tx.length < q.depth) := by
  cases op with
  | keep => exact Or.inl h
  | popRx => exact Or.inl h
  | popTx => exact Or.inl (List.mem_of_mem_tail h)
  | pushRx frame =>
      rw [Queues.apply] at h
      split at h <;> exact Or.inl h
  | pushTx frame =>
      rw [Queues.apply] at h
      split at h
      · rename_i hroom
        obtain h | h := List.mem_append.mp h
        · exact Or.inl h
        · exact Or.inr ⟨by rw [List.mem_singleton.mp h], hroom⟩
      · exact Or.inl h

/-- A step keeps the queue valid exactly when it writes one frame. -/
theorem step_txValid_iff (h : TxValid dev) (input : DevOp × Context) :
    TxValid (dev.step input).1 ↔ WritesOneFrame dev input := by
  have hqueues : (dev.step input).1.queues = dev.queues.apply (dev.queueOp input.2 input.1) :=
    step_queues input
  have htx : (dev.step input).1.txFifo = (dev.queues.apply (dev.queueOp input.2 input.1)).tx :=
    congrArg Queues.tx hqueues
  constructor
  · intro hnext ubuf hop hmax hvalid hroom
    have hpush : dev.queueOp input.2 input.1 = .pushTx ubuf := by
      rw [hop, queueOp, if_pos ⟨Bool.false_ne_true, hmax, hvalid⟩]
    have hmem : ubuf ∈ (dev.step input).1.txFifo := by
      rw [htx, hpush, Queues.apply_pushTx ubuf hroom]
      exact List.mem_append_right _ List.mem_cons_self
    exact (hnext ubuf hmem).length
  · intro hwrite slot hslot
    rw [htx] at hslot
    obtain hslot | ⟨hpush, hroom⟩ := mem_apply_tx hslot
    · exact h slot hslot
    · obtain ⟨hop, hmax, hvalid⟩ := queueOp_pushTx hpush
      exact ⟨hvalid, hwrite slot hop hmax hvalid hroom⟩

end SafetyCoproDev

/-- From the start of the driver on, every slot of the TX queue holds exactly one
frame as long as no write passes bytes behind its frame, and no longer. -/
theorem txQueue_valid_iff {hbTimeoutMs : U32} {fifoDepth cpus : Nat} {dev : SafetyCoproDev}
    (h : safetyCoproInit hbTimeoutMs fifoDepth cpus = some dev) (inputs : List (DevOp × Context)) :
    Machine.Always SafetyCoproDev.step TxValid dev inputs ↔
      Machine.Along SafetyCoproDev.step WritesOneFrame dev inputs := by
  have hempty : dev.txFifo = [] := (SafetyCoproDev.init_fifos h).2
  refine Machine.always_iff_along (fun _ input hs => SafetyCoproDev.step_txValid_iff hs input) ?_
    inputs
  rw [TxValid, hempty]
  exact List.forall_mem_nil _

/-- An acknowledgement with one byte behind it. -/
def ackAndOneByte : List U8 := buildAck 1 0 7 ++ [0]

theorem txQueue_trailing_byte :
    ∃ dev, safetyCoproInit 0 0 1 = some dev ∧
      (dev.step (.write ackAndOneByte false, {})).1.txFifo = [ackAndOneByte] ∧
      ¬ TxValid (dev.step (.write ackAndOneByte false, {})).1 :=
  ⟨_, rfl, by decide +kernel, by decide +kernel⟩

theorem txQueue_valid_iff_ack :
    ∃ dev, safetyCoproInit 0 0 1 = some dev ∧
      Machine.Always SafetyCoproDev.step TxValid dev [(.write (buildAck 1 0 7) false, {})] := by
  refine ⟨_, rfl, (@txQueue_valid_iff 0 0 1 _ rfl _).mpr ⟨fun ubuf hop _ _ _ => ?_, trivial⟩⟩
  obtain ⟨rfl, -⟩ := DevOp.write.inj hop
  decide +kernel

end SafetyCopro
