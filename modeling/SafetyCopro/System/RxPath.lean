import SafetyCopro.Driver.Queues
import SafetyCopro.Lib.Machine
import SafetyCopro.System.Receivers

/-!
From the UART to the event loop: the link daemon cuts the bytes into frames and
pushes them one by one, the driver checks and queues them between frames of its
own, and every read of the supervisor takes one out and feeds the assembler.
Each of the three looks at the framing again.
-/

namespace SafetyCopro

/-- Calls of others than the daemon's push and the supervisor's read. -/
def DevOp.Bystander : DevOp → Prop
  | .read .. => False
  | .ioctl (.pushRxFrame _) => False
  | _ => True

structure RxPath where
  framer : List U8 := []
  -- frames the daemon has found and not pushed yet
  pending : List (List U8) := []
  dev : SafetyCoproDev
  assembler : List U8 := []

/-- The daemon pushes the frames of a read before the next read; that it may read
ahead here only adds runs. -/
inductive RxInput
  | uart (data : List U8)
  | push (ctx : Context)
  | driver (op : { op : DevOp // op.Bystander }) (ctx : Context)
  | read

inductive RxEvent
  -- a push of the daemon, and whether it returned 0
  | pushed (frame : List U8) (accepted : Bool)
  -- a frame another call put into the RX queue
  | made (frame : List U8)
  -- what one read gave the event loop
  | read (frames : List ParsedFrame)
deriving DecidableEq, Repr

/-- The buffer of `handle_readable`. -/
def readBufferSize : Nat := 1024

/-- `push_rx_frame`: the device and whether it returns true. -/
def pushRxFrame (dev : SafetyCoproDev) (ctx : Context) (frame : List U8) : SafetyCoproDev × Bool :=
  if frame.length = 0 ∨ frame.length > safetyMaxFrameSize then (dev, false)
  else
    let o := dev.call ctx (.ioctl (.pushRxFrame (some frame)))
    (o.dev, match o.result with
      | .ok _ => true
      | .error _ => false)

namespace RxPath

def step (p : RxPath) : RxInput → RxPath × List RxEvent
  | .uart data =>
      let (frames, framer) := LinkFramer.feed p.framer data
      ({ p with framer, pending := p.pending ++ frames }, [])
  | .push ctx =>
      match p.pending with
      | [] => (p, [])
      | frame :: pending =>
          let (dev, accepted) := pushRxFrame p.dev ctx frame
          ({ p with dev, pending }, [.pushed frame accepted])
  | .driver op ctx =>
      let o := p.dev.call ctx op.1
      ({ p with dev := o.dev }, (o.dev.rxFifo.drop p.dev.rxFifo.length).map .made)
  | .read =>
      let o := p.dev.safetyRead readBufferSize false false
      match o.result with
      | .error _ => ({ p with dev := o.dev }, [])
      | .ok data =>
          let (frames, assembler) := FrameAssembler.feed p.assembler data
          ({ p with dev := o.dev, assembler }, [.read frames])

end RxPath

/-- The chunks that came in on the UART. -/
def RxInput.chunk : RxInput → List (List U8)
  | .uart data => [data]
  | _ => []

namespace RxEvent

def pushes : RxEvent → List (List U8)
  | .pushed frame _ => [frame]
  | _ => []

/-- The frames that went into the RX queue. -/
def accepted : RxEvent → List (List U8)
  | .pushed frame true => [frame]
  | .made frame => [frame]
  | _ => []

def parsed : RxEvent → List ParsedFrame
  | .read frames => frames
  | _ => []

end RxEvent

theorem isFrame_of_mem_feed {buf data f : List U8} (h : f ∈ (LinkFramer.feed buf data).1) :
    IsFrame f := by
  rw [LinkFramer.feed_eq_tokens] at h
  obtain ⟨t, ht, hf⟩ := List.mem_flatMap.mp h
  cases t with
  | noise b => cases hf
  | oversized hdr => cases hf
  | frame bytes =>
      obtain rfl := List.mem_singleton.mp hf
      exact isFrame_of_mem_tokens incremental_host ht

/-! ### One push -/

namespace SafetyCoproDev
variable {dev : SafetyCoproDev} (ctx : Context)

/-- The counters that show bytes which are no frame. -/
def badFraming (dev : SafetyCoproDev) : U32 × U32 := (dev.protoErrMagic, dev.protoErrLength)

theorem fifoPushFrame_badFraming (frame : List U8) (seq : U16) (type : U8)
    (event : SafetyTimelineEvent) :
    (dev.fifoPushFrame ctx frame seq type event).dev.badFraming = dev.badFraming := by
  rw [fifoPushFrame]
  split
  · rfl
  split <;> rfl

theorem pushLinkdFrame_badFraming (frame : List U8) (vres : SafetyValidateResult) :
    (dev.pushLinkdFrame ctx frame vres).dev.badFraming = dev.badFraming := by
  have hpush := @fifoPushFrame_badFraming dev ctx frame
    (SafetyFrameHeader.ofBytes frame).sequenceId (SafetyFrameHeader.ofBytes frame).type
    (if (SafetyFrameHeader.ofBytes frame).type = safetyFrameHeartbeat then .heartbeat else .frameRx)
  rw [← hpush]
  simp only [pushLinkdFrame]
  generalize dev.fifoPushFrame ctx frame _ _ _ = pushed
  split
  · rfl
  · rfl
  · split <;> rfl

theorem queueRxFromLinkd_badVersion {frame : List U8} (h : IsFrame frame)
    (hversion : (SafetyFrameHeader.ofBytes frame).version ≠ safetyProtoVersion) :
    dev.queueRxFromLinkd ctx frame =
      { dev := dev.recordProtoError .badVersion, result := .error .einval } := by
  obtain ⟨hmin, hmax⟩ := h.length_le
  have hmagic : (SafetyFrameHeader.ofBytes frame).magic = safetyProtoMagic := h.1
  rw [queueRxFromLinkd, if_neg (Nat.not_lt.mpr hmin), if_neg (Nat.not_lt.mpr hmax)]
  simp only [if_neg (not_not_intro hmagic), if_pos hversion]

theorem queueRxFromLinkd_badFraming {frame : List U8} (h : Queueable frame) :
    (dev.queueRxFromLinkd ctx frame).dev.badFraming = dev.badFraming := by
  rw [queueRxFromLinkd_eq ctx h, pushLinkdFrame_badFraming]
  split
  · rename_i hsum
    rw [hsum]
    rfl
  · rfl

end SafetyCoproDev

/-- A whole frame is taken when its version is right and the queue has room. A
push shows no bad framing in any case. -/
theorem pushRxFrame_isFrame {dev : SafetyCoproDev} (ctx : Context) {frame : List U8}
    (h : IsFrame frame) :
    (pushRxFrame dev ctx frame).2 =
        decide ((SafetyFrameHeader.ofBytes frame).version = safetyProtoVersion ∧
          dev.rxFifo.length < dev.fifoDepth) ∧
      (pushRxFrame dev ctx frame).1.rxFifo =
        dev.rxFifo ++ (RxEvent.pushed frame (pushRxFrame dev ctx frame).2).accepted ∧
      (pushRxFrame dev ctx frame).1.badFraming = dev.badFraming := by
  obtain ⟨hmin, hmax⟩ := h.length_le
  have hlen : ¬ (frame.length = 0 ∨ frame.length > safetyMaxFrameSize) := by
    have h16 : safetyHeaderSize = 16 := rfl
    omega
  have hcall : dev.call ctx (.ioctl (.pushRxFrame (some frame))) =
      (dev.queueRxFromLinkd ctx frame).reply fun _ => .done := by
    rw [SafetyCoproDev.call, SafetyCoproDev.safetyIoctl, if_neg (Nat.not_lt.mpr hmax)]
  simp only [pushRxFrame, if_neg hlen, hcall, SafetyCoproDev.reply_dev]
  by_cases hversion : (SafetyFrameHeader.ofBytes frame).version = safetyProtoVersion
  · obtain ⟨hqueues, hresult⟩ :=
      @SafetyCoproDev.queueRxFromLinkd_queueable dev ctx frame ⟨h, hversion⟩
    have hbad := @SafetyCoproDev.queueRxFromLinkd_badFraming dev ctx frame ⟨h, hversion⟩
    have hrx := congrArg Queues.rx hqueues
    by_cases hroom : dev.rxFifo.length < dev.fifoDepth
    · rw [if_pos hroom] at hresult
      rw [Queues.apply_pushRx frame hroom] at hrx
      simp only [Outcome.reply, hresult, hversion, hroom, and_self, decide_true]
      exact ⟨rfl, hrx, hbad⟩
    · rw [if_neg hroom] at hresult
      rw [Queues.apply_pushRx_full frame (Nat.not_lt.mp hroom)] at hrx
      simp only [Outcome.reply, hresult, hroom, and_false, decide_false]
      exact ⟨rfl, hrx.trans (List.append_nil _).symm, hbad⟩
  · rw [SafetyCoproDev.queueRxFromLinkd_badVersion ctx h hversion]
    simp only [hversion, false_and, decide_false]
    exact ⟨rfl, (List.append_nil _).symm, rfl⟩

/-! ### One call of another process -/

/-- A frame the driver made. -/
def Synthesised (frame : List U8) : Prop :=
  ∃ (s : Synth) (seq : U16) (tsMs : U32), frame = packFrame s.type seq tsMs s.payload

theorem Synthesised.queueable {frame : List U8} (h : Synthesised frame) : Queueable frame := by
  obtain ⟨s, seq, tsMs, rfl⟩ := h
  exact queueable_packFrame s.type seq tsMs s.payload_fits

/-- A bystander leaves the RX queue as it is or puts a frame of the driver behind
the others. -/
theorem queueOp_bystander (dev : SafetyCoproDev) (ctx : Context) {op : DevOp}
    (h : op.Bystander) :
    (dev.queues.apply (dev.queueOp ctx op)).rx = dev.rxFifo ∨
      ∃ frame, Synthesised frame ∧
        (dev.queues.apply (dev.queueOp ctx op)).rx = dev.rxFifo ++ [frame] := by
  have heffect := dev.queueOp_effect ctx op
  generalize dev.queueOp ctx op = q at heffect ⊢
  cases heffect with
  | written hmax hvalid => exact Or.inl (Queues.apply_pushTx_rx _)
  | popped fault => exact Or.inl rfl
  | read count nonblock fault => exact h.elim
  | pushed hframe => exact h.elim
  | made op s =>
      by_cases hroom : dev.rxFifo.length < dev.fifoDepth
      · rw [Queues.apply_pushRx _ hroom]
        exact Or.inr ⟨dev.synthFrame ctx s, ⟨s, dev.synthSeq, ctx.nowMs, rfl⟩, rfl⟩
      · rw [Queues.apply_pushRx_full _ (Nat.not_lt.mp hroom)]
        exact Or.inl rfl
  | kept op => exact Or.inl rfl

/-! ### One read -/

/-- A read with the event loop's buffer takes a whole slot out. -/
theorem safetyRead_cons {dev : SafetyCoproDev} {slot : List U8} {rest : List (List U8)}
    (h : dev.rxFifo = slot :: rest) (hslot : IsFrame slot) :
    dev.safetyRead readBufferSize false false =
      { dev := { dev with rxFifo := rest }, result := .ok slot } := by
  obtain ⟨hmin, hmax⟩ := hslot.length_le
  have hpos : 0 < slot.length := Nat.lt_of_lt_of_le (by decide) hmin
  have hbuffer : ¬ readBufferSize < slot.length := by
    have h272 : safetyMaxFrameSize = 272 := rfl
    have h1024 : readBufferSize = 1024 := rfl
    omega
  rw [SafetyCoproDev.safetyRead_slot h hpos, if_neg hbuffer, if_neg Bool.false_ne_true]

theorem feed_one_frame {slot : List U8} (h : IsFrame slot) :
    FrameAssembler.feed [] slot = ([.ofBytes slot], []) := by
  have hfeed := feed_isFrame h []
  rwa [List.append_nil] at hfeed

/-! ### Runs -/

/-- A read of the event loop gives one frame, intact or with a wrong checksum. -/
def RxEvent.Proper : RxEvent → Prop
  | .pushed frame _ => IsFrame frame
  | .made frame => Synthesised frame
  | .read frames =>
      ∃ f, frames = [f] ∧ (f.validateResult = .ok ∨ f.validateResult = .badChecksum)

/-- What holds behind the inputs read and the events they led to. -/
structure RxInv (inputs : List RxInput) (events : List RxEvent) (p : RxPath) : Prop where
  framed : Scanner.feeds LinkFramer.feed [] (inputs.flatMap RxInput.chunk) =
    (events.flatMap RxEvent.pushes ++ p.pending, p.framer)
  pending : ∀ f ∈ p.pending, IsFrame f
  queued : ∀ f ∈ p.dev.rxFifo, Queueable f
  assembler : p.assembler = []
  parsed : events.flatMap RxEvent.parsed ++ p.dev.rxFifo.map ParsedFrame.ofBytes =
    (events.flatMap RxEvent.accepted).map ParsedFrame.ofBytes
  proper : ∀ e ∈ events, e.Proper

namespace RxInv
variable {inputs : List RxInput} {events : List RxEvent} {p : RxPath}

theorem init {dev : SafetyCoproDev} (h : dev.rxFifo = []) : RxInv [] [] { dev } where
  framed := rfl
  pending := List.forall_mem_nil _
  queued := by
    rw [h]
    exact List.forall_mem_nil _
  assembler := rfl
  parsed := by
    rw [h]
    rfl
  proper := List.forall_mem_nil _

variable (h : RxInv inputs events p)
include h

/-- Only bytes on the UART change what the framer has found. -/
theorem framed_other {input : RxInput} (hinput : input.chunk = []) :
    Scanner.feeds LinkFramer.feed [] ((inputs ++ [input]).flatMap RxInput.chunk) =
      (events.flatMap RxEvent.pushes ++ p.pending, p.framer) := by
  rw [List.flatMap_append, List.flatMap_singleton, hinput, List.append_nil]
  exact h.framed

theorem step_uart (data : List U8) :
    RxInv (inputs ++ [.uart data]) (events ++ (p.step (.uart data)).2)
      (p.step (.uart data)).1 where
  framed := by
    rw [List.flatMap_append, List.flatMap_singleton, RxInput.chunk, Scanner.feeds_concat, h.framed,
      List.append_assoc]
    simp only [RxPath.step, List.append_nil]
  pending := by
    exact List.forall_mem_append.mpr ⟨h.pending, fun f hf => isFrame_of_mem_feed hf⟩
  queued := h.queued
  assembler := h.assembler
  parsed := by
    rw [RxPath.step, List.append_nil]
    exact h.parsed
  proper := by
    rw [RxPath.step, List.append_nil]
    exact h.proper

theorem step_push (ctx : Context) :
    RxInv (inputs ++ [.push ctx]) (events ++ (p.step (.push ctx)).2) (p.step (.push ctx)).1 := by
  have hframed := @framed_other _ _ _ h (.push ctx) rfl
  cases hpending : p.pending with
  | nil =>
      simp only [RxPath.step, hpending, List.append_nil]
      exact { h with framed := hframed }
  | cons frame rest =>
      have hframe : IsFrame frame := h.pending frame (by rw [hpending]; exact List.mem_cons_self)
      obtain ⟨haccepted, hrx, -⟩ := @pushRxFrame_isFrame p.dev ctx frame hframe
      simp only [RxPath.step, hpending]
      generalize pushRxFrame p.dev ctx frame = pushed at haccepted hrx ⊢
      rw [hpending] at hframed
      refine ⟨?_, ?_, ?_, h.assembler, ?_, ?_⟩
      · rw [hframed, List.flatMap_append, List.flatMap_singleton, RxEvent.pushes,
          List.append_assoc]
        rfl
      · intro f hf
        exact h.pending f (by rw [hpending]; exact List.mem_cons_of_mem _ hf)
      · rw [hrx]
        refine List.forall_mem_append.mpr ⟨h.queued, ?_⟩
        cases hok : pushed.2 with
        | false => exact List.forall_mem_nil _
        | true =>
            rw [hok] at haccepted
            exact List.forall_mem_singleton.mpr ⟨hframe, (of_decide_eq_true haccepted.symm).1⟩
      · have hnone : (RxEvent.pushed frame pushed.2).parsed = [] := rfl
        rw [hrx, List.map_append, List.flatMap_append, List.flatMap_append, List.map_append,
          ← h.parsed, List.flatMap_singleton, List.flatMap_singleton, hnone, List.append_nil,
          List.append_assoc]
      · exact List.forall_mem_append.mpr ⟨h.proper, List.forall_mem_singleton.mpr hframe⟩

theorem step_driver (op : { op : DevOp // op.Bystander }) (ctx : Context) :
    RxInv (inputs ++ [.driver op ctx]) (events ++ (p.step (.driver op ctx)).2)
      (p.step (.driver op ctx)).1 := by
  have hframed := @framed_other _ _ _ h (.driver op ctx) rfl
  have hrx : (p.dev.call ctx op.1).dev.rxFifo =
      (p.dev.queues.apply (p.dev.queueOp ctx op.1)).rx :=
    congrArg Queues.rx (SafetyCoproDev.call_queues ctx op.1)
  simp only [RxPath.step]
  generalize p.dev.call ctx op.1 = o at hrx ⊢
  obtain hkeep | ⟨frame, hframe, hpush⟩ := queueOp_bystander p.dev ctx op.2
  · rw [hkeep] at hrx
    rw [hrx, List.drop_length, List.map_nil, List.append_nil]
    refine { h with framed := hframed, queued := ?_, parsed := ?_ }
    · rw [hrx]
      exact h.queued
    · rw [hrx]
      exact h.parsed
  · rw [hpush] at hrx
    have hpushes : (RxEvent.made frame).pushes = [] := rfl
    have hparsed : (RxEvent.made frame).parsed = [] := rfl
    have haccepted : (RxEvent.made frame).accepted = [frame] := rfl
    rw [hrx, List.drop_left, List.map_singleton]
    refine ⟨?_, h.pending, ?_, h.assembler, ?_, ?_⟩
    · rw [hframed, List.flatMap_append, List.flatMap_singleton, hpushes, List.append_nil]
    · rw [hrx]
      exact List.forall_mem_append.mpr
        ⟨h.queued, List.forall_mem_singleton.mpr hframe.queueable⟩
    · rw [hrx, List.map_append, List.flatMap_append, List.flatMap_append, List.map_append,
        ← h.parsed, List.flatMap_singleton, List.flatMap_singleton, hparsed, haccepted,
        List.append_nil, List.append_assoc]
    · exact List.forall_mem_append.mpr ⟨h.proper, List.forall_mem_singleton.mpr hframe⟩

theorem step_read :
    RxInv (inputs ++ [.read]) (events ++ (p.step .read).2) (p.step .read).1 := by
  have hframed := @framed_other _ _ _ h .read rfl
  cases hfifo : p.dev.rxFifo with
  | nil =>
      simp only [RxPath.step, SafetyCoproDev.safetyRead_empty hfifo, List.append_nil]
      exact { h with framed := hframed }
  | cons slot rest =>
      have hqueued := h.queued
      rw [hfifo] at hqueued
      obtain ⟨hslot, hrest⟩ := List.forall_mem_cons.mp hqueued
      simp only [RxPath.step, safetyRead_cons hfifo hslot.1, h.assembler, feed_one_frame hslot.1]
      refine ⟨?_, h.pending, hrest, rfl, ?_, ?_⟩
      · rw [hframed, List.flatMap_append]
        exact congrArg (fun fs => (fs ++ p.pending, p.framer)) (List.append_nil _).symm
      · have hparsed := h.parsed
        rw [hfifo, List.map_cons] at hparsed
        have hadd : (RxEvent.read [.ofBytes slot]).accepted = [] := rfl
        have hone : (RxEvent.read [.ofBytes slot]).parsed = [.ofBytes slot] := rfl
        rw [List.flatMap_append, List.flatMap_append, List.flatMap_singleton,
          List.flatMap_singleton, hadd, hone, List.append_nil, List.append_assoc, ← hparsed]
        rfl
      · exact List.forall_mem_append.mpr ⟨h.proper, List.forall_mem_singleton.mpr
          ⟨_, rfl, SafetyCoproDev.safetyFrameValidate_queueable hslot⟩⟩

theorem step (input : RxInput) :
    RxInv (inputs ++ [input]) (events ++ (p.step input).2) (p.step input).1 := by
  cases input with
  | uart data => exact h.step_uart data
  | push ctx => exact h.step_push ctx
  | driver op ctx => exact h.step_driver op ctx
  | read => exact h.step_read

end RxInv

theorem rxInv_run {dev : SafetyCoproDev} (h : dev.rxFifo = []) (inputs : List RxInput) :
    RxInv inputs (Machine.outputs RxPath.step { dev } inputs)
      (Machine.after RxPath.step { dev } inputs) :=
  Machine.run_history (fun _ _ _ input h => h.step input) (.init h) inputs

/-- From the start of the driver on, whatever comes in on the UART and whoever
calls in between: each read gives one frame and leaves nothing in the assembler,
and the frames read and those still queued are the accepted ones in order. A push
is accepted exactly when the frame has the right version and finds room. -/
theorem rxPath_delivers {hbTimeoutMs : U32} {fifoDepth cpus : Nat} {dev : SafetyCoproDev}
    (h : safetyCoproInit hbTimeoutMs fifoDepth cpus = some dev) (inputs : List RxInput) :
    let p := Machine.after RxPath.step { dev } inputs
    let events := Machine.outputs RxPath.step { dev } inputs
    (Scanner.feeds LinkFramer.feed [] (inputs.flatMap RxInput.chunk)).1 =
        events.flatMap RxEvent.pushes ++ p.pending ∧
      (∀ frames, .read frames ∈ events →
        ∃ f, frames = [f] ∧ (f.validateResult = .ok ∨ f.validateResult = .badChecksum)) ∧
      p.assembler = [] ∧
      events.flatMap RxEvent.parsed ++ p.dev.rxFifo.map ParsedFrame.ofBytes =
        (events.flatMap RxEvent.accepted).map ParsedFrame.ofBytes ∧
      (∀ frame, .made frame ∈ events → Synthesised frame) ∧
      (∀ ctx frame rest, p.pending = frame :: rest →
        (p.step (.push ctx)).2 = [.pushed frame
          (decide ((SafetyFrameHeader.ofBytes frame).version = safetyProtoVersion ∧
            p.dev.rxFifo.length < p.dev.fifoDepth))] ∧
        (p.step (.push ctx)).1.dev.protoErrMagic = p.dev.protoErrMagic ∧
        (p.step (.push ctx)).1.dev.protoErrLength = p.dev.protoErrLength) ∧
      (∀ slot rest, p.dev.rxFifo = slot :: rest →
        (p.step .read).2 = [.read [.ofBytes slot]] ∧ (p.step .read).1.dev.rxFifo = rest) := by
  intro p events
  have hinv : RxInv inputs events p := rxInv_run (SafetyCoproDev.init_fifos h).1 inputs
  refine ⟨congrArg Prod.fst hinv.framed, fun _ hread => hinv.proper _ hread, hinv.assembler,
    hinv.parsed, fun _ hmade => hinv.proper _ hmade, ?_, ?_⟩
  · intro ctx frame rest hpending
    have hframe : IsFrame frame := hinv.pending frame (hpending ▸ List.mem_cons_self)
    obtain ⟨haccepted, -, hbad⟩ := @pushRxFrame_isFrame p.dev ctx frame hframe
    simp only [RxPath.step, hpending]
    exact ⟨by rw [haccepted], congrArg Prod.fst hbad, congrArg Prod.snd hbad⟩
  · intro slot rest hfifo
    have hslot : IsFrame slot := (hinv.queued slot (hfifo ▸ List.mem_cons_self)).1
    simp only [RxPath.step, safetyRead_cons hfifo hslot, hinv.assembler, feed_one_frame hslot,
      and_self]

/-- A heartbeat cut in two, with an injected fault between its push and the reads. -/
def heartbeatAndFault : List RxInput :=
  let beat := packFrame safetyFrameHeartbeat 1 0 []
  [.uart (7 :: beat.take 9), .uart (beat.drop 9), .push {},
    .driver ⟨.ioctl (.injectFault (some 3)), trivial⟩ {}, .read, .read]

theorem rxPath_delivers_heartbeatAndFault :
    ∃ dev, safetyCoproInit 0 0 1 = some dev ∧
      let p := Machine.after RxPath.step { dev } heartbeatAndFault
      let events := Machine.outputs RxPath.step { dev } heartbeatAndFault
      (events.flatMap RxEvent.accepted).length = 2 ∧ p.dev.rxFifo = [] ∧
        events.flatMap RxEvent.parsed ++ p.dev.rxFifo.map ParsedFrame.ofBytes =
          (events.flatMap RxEvent.accepted).map ParsedFrame.ofBytes :=
  ⟨_, rfl, by decide +kernel, by decide +kernel,
    (@rxPath_delivers 0 0 1 _ rfl heartbeatAndFault).2.2.2.1⟩

end SafetyCopro
