import SafetyCopro.Driver.TxQueue
import SafetyCopro.System.Receivers

/-!
From the supervisor to the firmware: a frame is built and written to the device,
the link daemon takes it out of the TX queue and puts it on the UART, and the
firmware reads it byte by byte.
-/

namespace SafetyCopro

/-- A call of `build_command`, `build_ack` or `build_nack`. -/
inductive BuiltFrame
  | command (seq : U16) (tsMs : U32) (cmd arg8 : U8) (arg16 : U16) (arg32 : U32)
  | ack (seq : U16) (tsMs : U32) (ackedSeq : U16)
  | nack (seq : U16) (tsMs : U32) (nackedSeq : U16) (reason : U8)
deriving DecidableEq, Repr

namespace BuiltFrame

def bytes : BuiltFrame → List U8
  | .command seq tsMs cmd arg8 arg16 arg32 => buildCommand seq tsMs cmd arg8 arg16 arg32
  | .ack seq tsMs ackedSeq => buildAck seq tsMs ackedSeq
  | .nack seq tsMs nackedSeq reason => buildNack seq tsMs nackedSeq reason

def type : BuiltFrame → U8
  | .command .. => safetyFrameCommand
  | .ack .. => safetyFrameAck
  | .nack .. => safetyFrameNack

def seq : BuiltFrame → U16
  | .command seq .. | .ack seq .. | .nack seq .. => seq

def tsMs : BuiltFrame → U32
  | .command _ tsMs .. | .ack _ tsMs .. | .nack _ tsMs .. => tsMs

def payload : BuiltFrame → List U8
  | .command _ _ cmd arg8 arg16 arg32 => safetyCommandPayload cmd arg8 arg16 arg32
  | .ack _ _ ackedSeq => safetyAckPayload ackedSeq
  | .nack _ _ nackedSeq reason => safetyNackPayloadBytes nackedSeq reason

theorem bytes_eq (f : BuiltFrame) : f.bytes = packFrame f.type f.seq f.tsMs f.payload := by
  cases f <;> rfl

theorem payload_fits (f : BuiltFrame) : f.payload.length ≤ safetyMaxPayload := by
  have hlen : f.payload.length ≤ 8 := by
    cases f with
    | command seq tsMs cmd arg8 arg16 arg32 => exact Nat.le_refl 8
    | ack seq tsMs ackedSeq => exact (by decide : 4 ≤ 8)
    | nack seq tsMs nackedSeq reason => exact (by decide : 4 ≤ 8)
  exact Nat.le_trans hlen (by decide)

theorem validFrame (f : BuiltFrame) : ValidFrame f.bytes := by
  rw [bytes_eq]
  exact validFrame_packFrame f.type f.seq f.tsMs f.payload_fits

/-- The frame as the firmware receives it. -/
def received (f : BuiltFrame) : SafetyRxFrame :=
  ⟨sealedHeader f.type f.seq f.tsMs f.payload, f.payload⟩

theorem rxFeed_bytes (f : BuiltFrame) : rxFeed {} f.bytes = ({}, [f.received]) := by
  rw [bytes_eq]
  exact rxFeed_packFrame f.type f.seq f.tsMs f.payload_fits

end BuiltFrame

namespace SafetyRxFrame

/-- The frame in a slot of the TX queue. -/
def ofBytes (slot : List U8) : SafetyRxFrame := ⟨.ofBytes slot, slot.drop safetyHeaderSize⟩

theorem ofBytes_built (f : BuiltFrame) : ofBytes f.bytes = f.received := by
  have hparsed := ofBytes_packFrame f.type f.seq f.tsMs f.payload_fits
  rw [ofBytes, f.bytes_eq]
  exact SafetyRxFrame.mk.injEq .. ▸
    ⟨congrArg ParsedFrame.header hparsed, congrArg ParsedFrame.payload hparsed⟩

/-- The call that a received frame came from, by its header and the packed
structure of its payload. -/
def built (m : SafetyRxFrame) : Option BuiltFrame :=
  if m.hdr.type = safetyFrameCommand ∧ m.payload.length = 8 then
    some (.command m.hdr.sequenceId m.hdr.timestampMs (byteAt m.payload 0) (byteAt m.payload 1)
      (u16At m.payload 2) (u32At m.payload 4))
  else if m.hdr.type = safetyFrameAck ∧ m.payload.length = 4 then
    some (.ack m.hdr.sequenceId m.hdr.timestampMs (u16At m.payload 0))
  else if m.hdr.type = safetyFrameNack ∧ m.payload.length = 4 then
    some (.nack m.hdr.sequenceId m.hdr.timestampMs (u16At m.payload 0) (byteAt m.payload 2))
  else none

/-- Nothing of a frame is lost on the way. -/
theorem built_received (f : BuiltFrame) : f.received.built = some f := by
  have hack : safetyFrameAck ≠ safetyFrameCommand := by decide
  have hnack : safetyFrameNack ≠ safetyFrameCommand ∧ safetyFrameNack ≠ safetyFrameAck := by decide
  cases f with
  | command seq tsMs cmd arg8 arg16 arg32 =>
      have h16 : u16At (safetyCommandPayload cmd arg8 arg16 arg32) 2 = arg16 :=
        append_extract16 arg16
      have h32 : u32At (safetyCommandPayload cmd arg8 arg16 arg32) 4 = arg32 :=
        append_extract32 arg32
      rw [built, if_pos ⟨rfl, rfl⟩]
      exact congrArg some (congrArg₂ (BuiltFrame.command seq tsMs cmd arg8) h16 h32)
  | ack seq tsMs ackedSeq =>
      have h16 : u16At (safetyAckPayload ackedSeq) 0 = ackedSeq := append_extract16 ackedSeq
      rw [built, if_neg fun h => hack h.1, if_pos ⟨rfl, rfl⟩]
      exact congrArg (fun x => some (BuiltFrame.ack seq tsMs x)) h16
  | nack seq tsMs nackedSeq reason =>
      have h16 : u16At (safetyNackPayloadBytes nackedSeq reason) 0 = nackedSeq :=
        append_extract16 nackedSeq
      rw [built, if_neg fun h => hnack.1 h.1, if_neg fun h => hnack.2 h.1, if_pos ⟨rfl, rfl⟩]
      exact congrArg (fun x => some (BuiltFrame.nack seq tsMs x reason)) h16

end SafetyRxFrame

/-! ### The path -/

/-- Calls of others than the supervisor's write and the daemon's pop. -/
def DevOp.TxBystander : DevOp → Prop
  | .write .. => False
  | .ioctl (.popTxFrame _) => False
  | _ => True

structure TxPath where
  dev : SafetyCoproDev
  -- bytes the firmware has still to read
  uart : List U8 := []
  rxs : RxState := {}

inductive TxInput
  | write (f : BuiltFrame) (ctx : Context)
  | pop
  | byte
  | driver (op : { op : DevOp // op.TxBystander }) (ctx : Context)

inductive TxEvent
  -- a write of the supervisor that succeeded
  | wrote (f : BuiltFrame)
  -- a frame the firmware puts into its message queue
  | posted (m : SafetyRxFrame)
deriving DecidableEq, Repr

/-- `pop_tx_frame`: the device and the frame, if there is one. -/
def popTxFrame (dev : SafetyCoproDev) : SafetyCoproDev × Option (List U8) :=
  let o := dev.call {} (.ioctl (.popTxFrame false))
  (o.dev, match o.result with
    | .ok (.frame slot) => some slot
    | _ => none)

namespace TxPath

def step (p : TxPath) : TxInput → TxPath × List TxEvent
  | .write f ctx =>
      let o := p.dev.safetyWrite ctx f.bytes false
      ({ p with dev := o.dev }, match o.result with
        | .ok _ => [.wrote f]
        | .error _ => [])
  | .pop =>
      match popTxFrame p.dev with
      | (dev, none) => ({ p with dev }, [])
      | (dev, some slot) => ({ p with dev, uart := p.uart ++ slot }, [])
  | .byte =>
      match p.uart with
      | [] => (p, [])
      | b :: uart =>
          let (rxs, ms) := rxFeedByte p.rxs b
          ({ p with rxs, uart }, ms.map .posted)
  | .driver op ctx => ({ p with dev := (p.dev.call ctx op.1).dev }, [])

end TxPath

namespace TxEvent

def written : TxEvent → List BuiltFrame
  | .wrote f => [f]
  | .posted _ => []

def message : TxEvent → List SafetyRxFrame
  | .wrote _ => []
  | .posted m => [m]

end TxEvent

/-! ### One call -/

theorem safetyWrite_built (dev : SafetyCoproDev) (ctx : Context) (f : BuiltFrame) :
    (dev.safetyWrite ctx f.bytes false).dev.txFifo =
        (dev.queues.apply (.pushTx f.bytes)).tx ∧
      (dev.safetyWrite ctx f.bytes false).result =
        if dev.txFifo.length < dev.fifoDepth then .ok f.bytes.length else .error .eagain := by
  have hvalid := f.validFrame
  obtain ⟨hqueues, hresult⟩ := @SafetyCoproDev.safetyWrite_valid dev ctx f.bytes
    hvalid.isFrame.length_le.2 hvalid.valid
  exact ⟨congrArg Queues.tx hqueues, hresult⟩

theorem popTxFrame_nil {dev : SafetyCoproDev} (h : dev.txFifo = []) :
    popTxFrame dev = (dev, none) := by
  simp [popTxFrame, SafetyCoproDev.call, SafetyCoproDev.safetyIoctl,
    SafetyCoproDev.fifoPopTxFrame, h]

theorem popTxFrame_cons {dev : SafetyCoproDev} {slot : List U8} {rest : List (List U8)}
    (h : dev.txFifo = slot :: rest) (hslot : IsFrame slot) :
    popTxFrame dev = ({ dev with txFifo := rest }, some slot) := by
  have hlen : ¬ slot.length = 0 := by
    have hmin := hslot.length_le.1
    have h16 : safetyHeaderSize = 16 := rfl
    omega
  simp only [popTxFrame, SafetyCoproDev.call, SafetyCoproDev.safetyIoctl,
    SafetyCoproDev.fifoPopTxFrame, h, if_neg hlen, Bool.false_eq_true, if_false]

theorem call_txBystander (dev : SafetyCoproDev) (ctx : Context) {op : DevOp}
    (h : op.TxBystander) : (dev.call ctx op).dev.txFifo = dev.txFifo := by
  have htx : (dev.call ctx op).dev.txFifo = (dev.queues.apply (dev.queueOp ctx op)).tx :=
    congrArg Queues.tx (SafetyCoproDev.call_queues ctx op)
  have heffect := dev.queueOp_effect ctx op
  rw [htx]
  generalize dev.queueOp ctx op = q at heffect ⊢
  cases heffect with
  | written hmax hvalid => exact h.elim
  | popped fault => exact h.elim
  | read count nonblock fault => rfl
  | pushed hframe => exact Queues.apply_pushRx_tx _
  | made op s => exact Queues.apply_pushRx_tx _
  | kept op => rfl

/-! ### Runs -/

/-- What was posted, what the bytes on the UART will still lead to and what is
queued make up what was written. -/
structure TxInv (events : List TxEvent) (p : TxPath) : Prop where
  queued : ∀ slot ∈ p.dev.txFifo, ∃ f : BuiltFrame, slot = f.bytes
  idle : (rxFeed p.rxs p.uart).1 = {}
  conserved : events.flatMap TxEvent.message ++ (rxFeed p.rxs p.uart).2 ++
      p.dev.txFifo.map SafetyRxFrame.ofBytes =
    (events.flatMap TxEvent.written).map BuiltFrame.received

namespace TxInv
variable {events : List TxEvent} {p : TxPath}

theorem init {dev : SafetyCoproDev} (h : dev.txFifo = []) : TxInv [] { dev } where
  queued := by
    rw [h]
    exact List.forall_mem_nil _
  idle := rfl
  conserved := by
    rw [h]
    rfl

variable (h : TxInv events p)
include h

theorem step_write (f : BuiltFrame) (ctx : Context) :
    TxInv (events ++ (p.step (.write f ctx)).2) (p.step (.write f ctx)).1 := by
  obtain ⟨htx, hresult⟩ := safetyWrite_built p.dev ctx f
  simp only [TxPath.step]
  generalize p.dev.safetyWrite ctx f.bytes false = o at htx hresult ⊢
  by_cases hroom : p.dev.txFifo.length < p.dev.fifoDepth
  · rw [if_pos hroom] at hresult
    rw [Queues.apply_pushTx f.bytes hroom] at htx
    have htx' : o.dev.txFifo = p.dev.txFifo ++ [f.bytes] := htx
    simp only [hresult]
    refine ⟨?_, h.idle, ?_⟩
    · rw [htx']
      exact List.forall_mem_append.mpr ⟨h.queued, List.forall_mem_singleton.mpr ⟨f, rfl⟩⟩
    · have hmessage : (TxEvent.wrote f).message = [] := rfl
      have hwritten : (TxEvent.wrote f).written = [f] := rfl
      simp only [htx', List.flatMap_append, List.flatMap_singleton, hmessage, hwritten,
        List.append_nil, List.map_append, List.map_singleton, SafetyRxFrame.ofBytes_built]
      rw [← h.conserved, ← List.append_assoc]
  · rw [if_neg hroom] at hresult
    rw [Queues.apply_pushTx_full f.bytes (Nat.not_lt.mp hroom)] at htx
    have htx' : o.dev.txFifo = p.dev.txFifo := htx
    simp only [hresult, List.append_nil]
    refine ⟨?_, h.idle, ?_⟩
    · rw [htx']
      exact h.queued
    · rw [htx']
      exact h.conserved

theorem step_pop : TxInv (events ++ (p.step .pop).2) (p.step .pop).1 := by
  cases hfifo : p.dev.txFifo with
  | nil =>
      simp only [TxPath.step, popTxFrame_nil hfifo, List.append_nil]
      exact h
  | cons slot rest =>
      have hqueued := h.queued
      have hconserved := h.conserved
      rw [hfifo] at hqueued hconserved
      obtain ⟨⟨f, rfl⟩, hrest⟩ := List.forall_mem_cons.mp hqueued
      have hfeed : rxFeed p.rxs (p.uart ++ f.bytes) =
          ({}, (rxFeed p.rxs p.uart).2 ++ [f.received]) := by
        rw [rxFeed_append, h.idle, f.rxFeed_bytes]
      simp only [TxPath.step, popTxFrame_cons hfifo f.validFrame.isFrame, List.append_nil]
      refine ⟨hrest, congrArg Prod.fst hfeed, ?_⟩
      rw [hfeed, ← hconserved, List.map_cons, SafetyRxFrame.ofBytes_built, List.append_assoc,
        List.append_assoc, List.append_assoc, List.singleton_append]

theorem step_byte : TxInv (events ++ (p.step .byte).2) (p.step .byte).1 := by
  cases huart : p.uart with
  | nil =>
      simp only [TxPath.step, huart, List.append_nil]
      exact h
  | cons b uart =>
      obtain ⟨hqueued, hidle, hconserved⟩ := h
      rw [huart, rxFeed_cons] at hidle hconserved
      have hmessage : ((rxFeedByte p.rxs b).2.map TxEvent.posted).flatMap TxEvent.message =
          (rxFeedByte p.rxs b).2 := by
        rw [List.flatMap_map]
        exact List.flatMap_singleton' _
      have hwritten : ((rxFeedByte p.rxs b).2.map TxEvent.posted).flatMap TxEvent.written = [] := by
        rw [List.flatMap_map]
        exact List.flatMap_eq_nil_iff.mpr fun _ _ => rfl
      simp only [TxPath.step, huart]
      refine ⟨hqueued, hidle, ?_⟩
      rw [List.flatMap_append, List.flatMap_append, hmessage, hwritten, List.append_nil,
        ← hconserved, List.append_assoc (events.flatMap TxEvent.message)]

theorem step_driver (op : { op : DevOp // op.TxBystander }) (ctx : Context) :
    TxInv (events ++ (p.step (.driver op ctx)).2) (p.step (.driver op ctx)).1 := by
  have htx := call_txBystander p.dev ctx op.2
  simp only [TxPath.step, List.append_nil]
  refine ⟨?_, h.idle, ?_⟩
  · rw [htx]
    exact h.queued
  · rw [htx]
    exact h.conserved

theorem step (input : TxInput) : TxInv (events ++ (p.step input).2) (p.step input).1 := by
  cases input with
  | write f ctx => exact h.step_write f ctx
  | pop => exact h.step_pop
  | byte => exact h.step_byte
  | driver op ctx => exact h.step_driver op ctx

end TxInv

theorem txInv_run {dev : SafetyCoproDev} (h : dev.txFifo = []) (inputs : List TxInput) :
    TxInv (Machine.outputs TxPath.step { dev } inputs)
      (Machine.after TxPath.step { dev } inputs) :=
  Machine.run_history (P := fun _ events p => TxInv events p)
    (fun _ _ _ input h => h.step input) (.init h) inputs

/-- From the start of the driver on, however writes, pops, bytes and other calls
follow each other: read back field by field, the frames the firmware posted, will
post of the bytes on the UART and would get from the queue are those written, in
order. With nothing on the UART the receiver is idle. A write succeeds when there
is room, and a pop takes a whole frame. -/
theorem txPath_delivers {hbTimeoutMs : U32} {fifoDepth cpus : Nat} {dev : SafetyCoproDev}
    (h : safetyCoproInit hbTimeoutMs fifoDepth cpus = some dev) (inputs : List TxInput) :
    let p := Machine.after TxPath.step { dev } inputs
    let events := Machine.outputs TxPath.step { dev } inputs
    let posted := events.flatMap TxEvent.message
    let written := events.flatMap TxEvent.written
    (posted ++ (rxFeed p.rxs p.uart).2 ++ p.dev.txFifo.map SafetyRxFrame.ofBytes).map
          SafetyRxFrame.built =
        written.map some ∧
      (rxFeed p.rxs p.uart).1 = {} ∧
      (p.uart = [] → p.rxs = {} ∧
        (p.dev.txFifo = [] → posted.map SafetyRxFrame.built = written.map some)) ∧
      (∀ f ctx, (p.step (.write f ctx)).2 =
        if p.dev.txFifo.length < p.dev.fifoDepth then [.wrote f] else []) ∧
      (∀ slot rest, p.dev.txFifo = slot :: rest →
        (p.step .pop).1.uart = p.uart ++ slot ∧ (p.step .pop).1.dev.txFifo = rest) := by
  intro p events posted written
  have hinv : TxInv events p := txInv_run (SafetyCoproDev.init_fifos h).2 inputs
  have hall : (posted ++ (rxFeed p.rxs p.uart).2 ++ p.dev.txFifo.map SafetyRxFrame.ofBytes).map
      SafetyRxFrame.built = written.map some := by
    rw [hinv.conserved, List.map_map]
    exact List.map_congr_left fun f _ => SafetyRxFrame.built_received f
  refine ⟨hall, hinv.idle, fun huart => ?_, fun f ctx => ?_, fun slot rest hfifo => ?_⟩
  · have hidle := hinv.idle
    rw [huart] at hidle hall
    refine ⟨hidle, fun hfifo => ?_⟩
    rw [hfifo] at hall
    have hnone : (rxFeed p.rxs []).2 = [] := rfl
    rwa [hnone, List.map_nil, List.append_nil, List.append_nil] at hall
  · simp only [TxPath.step, (safetyWrite_built p.dev ctx f).2]
    by_cases hroom : p.dev.txFifo.length < p.dev.fifoDepth
    · simp only [if_pos hroom]
    · simp only [if_neg hroom]
  · obtain ⟨f, rfl⟩ := hinv.queued slot (hfifo ▸ List.mem_cons_self)
    simp only [TxPath.step, popTxFrame_cons hfifo f.validFrame.isFrame, and_self]

/-- Two writes around a pop; the second payload holds a magic. The bytes of the
first frame are read, those of the second stay on the UART. -/
def ackAndCommand : List TxInput :=
  [.write (.ack 1 0 7) {}, .pop, .write (.command 2 0 safetyCmdInjectFault 1 safetyProtoMagic 0) {}]
    ++ List.replicate 20 .byte ++ [.pop]

theorem txPath_delivers_ackAndCommand :
    ∃ dev, safetyCoproInit 0 0 1 = some dev ∧
      let p := Machine.after TxPath.step { dev } ackAndCommand
      let events := Machine.outputs TxPath.step { dev } ackAndCommand
      events.flatMap TxEvent.message = [(BuiltFrame.ack 1 0 7).received] ∧
        (events.flatMap TxEvent.written).length = 2 ∧ (rxFeed p.rxs p.uart).1 = {} :=
  ⟨_, rfl, by decide +kernel, by decide +kernel,
    (@txPath_delivers 0 0 1 _ rfl ackAndCommand).2.1⟩

end SafetyCopro
