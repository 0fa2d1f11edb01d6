import SafetyCopro.System.RxPath
import SafetyCopro.System.TxPath

/-!
The main loop of the link daemon, `safety-linkd/main.cpp`, one system call at a
time. Between two calls of the daemon the supervisor may read the device and
others may call it. What every call returns is an input, with the UART's side of
it left to the environment.
-/

namespace SafetyCopro

/-- What `errno` tells the daemon of a call on the UART. -/
inductive UartError
  | eintr | eagain | other
deriving DecidableEq, Repr

/-- Where the daemon is, with the locals it needs there. -/
inductive LinkdPc
  -- `while (g_running.load())`
  | top
  -- `::read` on the UART
  | reading
  -- the loop over the frames of one read
  | pushing (frames : List (List U8))
  -- `pop_tx_frame`
  | popping
  -- `write_all`, with `off` bytes of the frame out
  | writing (frame : List U8) (off : Nat)
  | exited (code : Nat)
deriving DecidableEq, Repr

namespace LinkdPc

/-- The head of the loop over the frames. -/
def pushNext : List (List U8) → LinkdPc
  | [] => .reading
  | frame :: frames => .pushing (frame :: frames)

def pending : LinkdPc → List (List U8)
  | .pushing frames => frames
  | _ => []

/-- The frame `write_all` is at. -/
def current : LinkdPc → List (List U8)
  | .writing frame _ => [frame]
  | _ => []

/-- What is out of that frame. -/
def sent : LinkdPc → List U8
  | .writing frame off => frame.take off
  | _ => []

theorem current_pushNext (frames : List (List U8)) : (pushNext frames).current = [] := by
  cases frames <;> rfl

theorem pushNext_ne_top (frames : List (List U8)) : pushNext frames ≠ .top := by
  cases frames <;> simp [pushNext]

/-- The daemon holds no frame. -/
def Between (pc : LinkdPc) : Prop := pc.pending = [] ∧ pc.current = []

theorem sent_of_current_nil {pc : LinkdPc} (h : pc.current = []) : pc.sent = [] := by
  cases pc with
  | writing frame off => exact absurd h (List.cons_ne_nil _ _)
  | _ => rfl

end LinkdPc

inductive LinkdLogKind
  | uartRxPush | pushRxFailed | popTxUart | uartTxFailed | popTxFailed
deriving DecidableEq, Repr

/-- A line of `linkd_events.jsonl`, without its time and the text of the errno. -/
structure LinkdLogLine where
  kind : LinkdLogKind
  frameType : Text := []
  seq : Int := -1
  bytes : Nat := 0
deriving DecidableEq, Repr

/-- `frame_type_name` of the daemon: the names of the supervisor's, and one for all
other types. -/
def linkdFrameTypeName (type : U8) : Text :=
  if frameTypeName type = [] then Text.lit "UNKNOWN" else frameTypeName type

/-- The line for a frame. One that is shorter than a header is logged with zeros. -/
def LinkdLogLine.ofFrame (kind : LinkdLogKind) (frame : List U8) : LinkdLogLine :=
  let hdr := SafetyFrameHeader.ofBytes frame
  if safetyHeaderSize ≤ frame.length then
    { kind, frameType := linkdFrameTypeName hdr.type, seq := hdr.sequenceId.toNat
      bytes := frame.length }
  else { kind, frameType := linkdFrameTypeName 0, seq := 0, bytes := frame.length }

/-- Calls of others than the daemon's push and pop and the supervisor's read. -/
def DevOp.Elsewhere : DevOp → Prop
  | .read .. => False
  | .ioctl (.pushRxFrame _) => False
  | .ioctl (.popTxFrame _) => False
  | _ => True

theorem DevOp.Elsewhere.bystander {op : DevOp} (h : op.Elsewhere) : op.Bystander := by
  cases op with
  | ioctl cmd =>
      cases cmd with
      | popTxFrame fault => exact h.elim
      | _ => exact h
  | _ => exact h

structure LinkdHost where
  pc : LinkdPc := .top
  framer : List U8 := []
  dev : SafetyCoproDev
  assembler : List U8 := []

inductive PollReply
  | interrupted | failed
  -- with `POLLIN` of the UART; the other descriptor is not looked at
  | ready (pollin : Bool)
deriving DecidableEq, Repr

/-- One call. An input of the daemon that is not for the call it is at does
nothing. -/
inductive LinkdInput
  -- a signal came or the time is up
  | stop
  | poll (reply : PollReply)
  | uartRead (reply : Except UartError (List U8))
  | push (ctx : Context)
  | pop
  | uartWrite (reply : Except UartError Nat)
  | supervisorRead
  | other (op : { op : DevOp // op.Elsewhere }) (ctx : Context)

inductive LinkdEvent
  | uartIn (data : List U8)
  | pushed (frame : List U8) (accepted : Bool)
  | uartOut (data : List U8)
  -- `write_all` returned with `out` bytes of the frame out
  | passed (frame : List U8) (out : Nat)
  | logged (line : LinkdLogLine)
  -- a frame another process put into the TX queue, or the driver into the RX queue
  | wrote (frame : List U8)
  | made (frame : List U8)
  | read (frames : List ParsedFrame)
deriving DecidableEq, Repr

/-- The `buf` of `main`. -/
def uartBufferSize : Nat := 1024

/-- A pop of the daemon; its buffer can always be written. -/
def daemonPop : DevOp := .ioctl (.popTxFrame false)

theorem daemonPop_bystander : daemonPop.Bystander := trivial

namespace LinkdHost

/-- `pop_tx_frame` and what the loop does with its result. The `errno`s of the loop
that the driver does not have are left out. -/
def popTx (s : LinkdHost) : LinkdHost × List LinkdEvent :=
  let o := s.dev.call {} daemonPop
  let s := { s with dev := o.dev }
  match o.result with
  | .error .eagain => ({ s with pc := .top }, [])
  | .error _ => ({ s with pc := .top }, [.logged { kind := .popTxFailed }])
  | .ok (.frame slot) =>
      if slot.length = 0 ∨ slot.length > safetyMaxFrameSize then (s, [])
      else ({ s with pc := .writing slot 0 }, [])
  | .ok _ => (s, [])

/-- One turn of the loop of `write_all`. -/
def writeAll (s : LinkdHost) (frame : List U8) (off : Nat) :
    Except UartError Nat → LinkdHost × List LinkdEvent
  | .error .eintr | .error .eagain => (s, [])
  | .error .other =>
      ({ s with pc := .popping },
        [.passed frame off, .logged (.ofFrame .uartTxFailed frame)])
  | .ok n =>
      let data := (frame.drop off).take n
      let off := off + data.length
      if off < frame.length then ({ s with pc := .writing frame off }, [.uartOut data])
      else
        ({ s with pc := .popping },
          [.uartOut data, .passed frame off, .logged (.ofFrame .popTxUart frame)])

def step (s : LinkdHost) : LinkdInput → LinkdHost × List LinkdEvent
  | .stop =>
      match s.pc with
      | .top => ({ s with pc := .exited 0 }, [])
      | _ => (s, [])
  | .poll reply =>
      match s.pc, reply with
      | .top, .failed => ({ s with pc := .exited 1 }, [])
      | .top, .ready true => ({ s with pc := .reading }, [])
      | .top, .ready false => ({ s with pc := .popping }, [])
      | _, _ => (s, [])
  | .uartRead reply =>
      match s.pc, reply with
      | .reading, .error .eagain => ({ s with pc := .popping }, [])
      | .reading, .error .other => ({ s with pc := .exited 1 }, [])
      | .reading, .ok data =>
          let data := data.take uartBufferSize
          if data = [] then ({ s with pc := .popping }, [])
          else
            let (frames, framer) := LinkFramer.feed s.framer data
            ({ s with framer, pc := .pushNext frames }, [.uartIn data])
      | _, _ => (s, [])
  | .push ctx =>
      match s.pc with
      | .pushing (frame :: frames) =>
          let (dev, accepted) := pushRxFrame s.dev ctx frame
          ({ s with dev, pc := .pushNext frames },
            [.pushed frame accepted,
              .logged (.ofFrame (if accepted then .uartRxPush else .pushRxFailed) frame)])
      | _ => (s, [])
  | .pop =>
      match s.pc with
      | .popping => s.popTx
      | _ => (s, [])
  | .uartWrite reply =>
      match s.pc with
      | .writing frame off => s.writeAll frame off reply
      | _ => (s, [])
  | .supervisorRead =>
      let o := s.dev.safetyRead readBufferSize false false
      match o.result with
      | .error _ => ({ s with dev := o.dev }, [])
      | .ok data =>
          let (frames, assembler) := FrameAssembler.feed s.assembler data
          ({ s with dev := o.dev, assembler }, [.read frames])
  | .other op ctx =>
      let o := s.dev.call ctx op.1
      ({ s with dev := o.dev },
        (o.dev.rxFifo.drop s.dev.rxFifo.length).map .made ++
          (o.dev.txFifo.drop s.dev.txFifo.length).map .wrote)

end LinkdHost

namespace LinkdEvent

def chunk : LinkdEvent → List (List U8)
  | .uartIn data => [data]
  | _ => []

def bytesOut : LinkdEvent → List U8
  | .uartOut data => data
  | _ => []

def line : LinkdEvent → List LinkdLogLine
  | .logged line => [line]
  | _ => []

/-- A frame of the TX queue that the daemon is done with, and how much of it went
out. -/
def done : LinkdEvent → List (List U8 × Nat)
  | .passed frame out => [(frame, out)]
  | _ => []

def written : LinkdEvent → List (List U8)
  | .wrote frame => [frame]
  | _ => []

def rx : LinkdEvent → List RxEvent
  | .pushed frame accepted => [.pushed frame accepted]
  | .made frame => [.made frame]
  | .read frames => [.read frames]
  | _ => []

/-- The line a reader of the report should find for an event. -/
def owed : LinkdEvent → List LinkdLogLine
  | .pushed frame accepted =>
      [.ofFrame (if accepted then .uartRxPush else .pushRxFailed) frame]
  | .passed frame out =>
      [.ofFrame (if out = frame.length then .popTxUart else .uartTxFailed) frame]
  | _ => []

end LinkdEvent

/-! ### One step -/

theorem call_daemonPop_nil {dev : SafetyCoproDev} (h : dev.txFifo = []) :
    dev.call {} daemonPop = { dev, result := .error .eagain } := by
  simp [daemonPop, SafetyCoproDev.call, SafetyCoproDev.safetyIoctl,
    SafetyCoproDev.fifoPopTxFrame, h]

theorem call_daemonPop_cons {dev : SafetyCoproDev} {slot : List U8} {rest : List (List U8)}
    (h : dev.txFifo = slot :: rest) :
    dev.call {} daemonPop =
      { dev := { dev with txFifo := rest }
        result := if slot.length = 0 then .error .eagain else .ok (.frame slot) } := by
  simp only [daemonPop, SafetyCoproDev.call, SafetyCoproDev.safetyIoctl,
    SafetyCoproDev.fifoPopTxFrame, h, Bool.false_eq_true, if_false]
  split <;> rfl

namespace LinkdHost

/-- The way up as the system model has it: a read of the UART and the pushes that
follow it are apart, and the daemon's pop is a call like any other. -/
def rxPath (s : LinkdHost) : RxPath := ⟨s.framer, s.pc.pending, s.dev, s.assembler⟩

/-- The steps of that model which a step of the daemon stands for. -/
def rxInputs (s : LinkdHost) : LinkdInput → List RxInput
  | .uartRead (.ok data) =>
      if s.pc = .reading ∧ data.take uartBufferSize ≠ [] then [.uart (data.take uartBufferSize)]
      else []
  | .push ctx =>
      match s.pc with
      | .pushing (_ :: _) => [.push ctx]
      | _ => []
  | .pop => if s.pc = .popping then [.driver ⟨daemonPop, daemonPop_bystander⟩ {}] else []
  | .supervisorRead => [.read]
  | .other op ctx => [.driver ⟨op.1, op.2.bystander⟩ ctx]
  | _ => []

/-- Everything a step can do. -/
inductive Stepped (s : LinkdHost) : List RxInput → LinkdHost → List LinkdEvent → Prop
  | still : Stepped s [] s []
  | moved {pc : LinkdPc} (hfrom : s.pc.Between) (hto : pc.Between) (htop : pc ≠ .top) :
      Stepped s [] { s with pc } []
  | fed {data : List U8} (hpc : s.pc = .reading) :
      Stepped s [.uart data]
        { s with framer := (LinkFramer.feed s.framer data).2
                 pc := .pushNext (LinkFramer.feed s.framer data).1 }
        [.uartIn data]
  | pushed (ctx : Context) {frame : List U8} {frames : List (List U8)}
      (hpc : s.pc = .pushing (frame :: frames)) :
      Stepped s [.push ctx]
        { s with dev := (pushRxFrame s.dev ctx frame).1, pc := .pushNext frames }
        [.pushed frame (pushRxFrame s.dev ctx frame).2,
          .logged (.ofFrame
            (if (pushRxFrame s.dev ctx frame).2 then .uartRxPush else .pushRxFailed) frame)]
  | found {slot : List U8} {rest : List (List U8)} (hpc : s.pc = .popping)
      (hfifo : s.dev.txFifo = slot :: rest) (hpos : 0 < slot.length)
      (hmax : slot.length ≤ safetyMaxFrameSize) :
      Stepped s [.driver ⟨daemonPop, daemonPop_bystander⟩ {}]
        { s with dev := { s.dev with txFifo := rest }, pc := .writing slot 0 } []
  | starved (hpc : s.pc = .popping) (hfifo : s.dev.txFifo = []) :
      Stepped s [.driver ⟨daemonPop, daemonPop_bystander⟩ {}] { s with pc := .top } []
  -- a slot that no write puts there
  | skipped {slot : List U8} {rest : List (List U8)} {pc : LinkdPc} (hpc : s.pc = .popping)
      (hpc' : pc.Between) (hfifo : s.dev.txFifo = slot :: rest)
      (hslot : slot.length = 0 ∨ safetyMaxFrameSize < slot.length) :
      Stepped s [.driver ⟨daemonPop, daemonPop_bystander⟩ {}]
        { s with dev := { s.dev with txFifo := rest }, pc } []
  | tore {frame : List U8} {off : Nat} (hpc : s.pc = .writing frame off) :
      Stepped s [] { s with pc := .popping }
        [.passed frame off, .logged (.ofFrame .uartTxFailed frame)]
  | wrotePart {frame : List U8} {off n : Nat} (hpc : s.pc = .writing frame off)
      (hoff : off + ((frame.drop off).take n).length < frame.length) :
      Stepped s [] { s with pc := .writing frame (off + ((frame.drop off).take n).length) }
        [.uartOut ((frame.drop off).take n)]
  | wroteAll {frame : List U8} {off n : Nat} (hpc : s.pc = .writing frame off)
      (hoff : ¬ off + ((frame.drop off).take n).length < frame.length) :
      Stepped s [] { s with pc := .popping }
        [.uartOut ((frame.drop off).take n),
          .passed frame (off + ((frame.drop off).take n).length),
          .logged (.ofFrame .popTxUart frame)]
  | read : Stepped s [.read] (s.step .supervisorRead).1 (s.step .supervisorRead).2
  | other (op : { op : DevOp // op.Elsewhere }) (ctx : Context) :
      Stepped s [.driver ⟨op.1, op.2.bystander⟩ ctx] (s.step (.other op ctx)).1
        (s.step (.other op ctx)).2

variable (s : LinkdHost)

theorem stepped_uartRead (reply : Except UartError (List U8)) :
    s.Stepped (s.rxInputs (.uartRead reply)) (s.step (.uartRead reply)).1
      (s.step (.uartRead reply)).2 := by
  cases hpc : s.pc with
  | reading =>
      have hfrom : s.pc.Between := hpc ▸ ⟨rfl, rfl⟩
      cases reply with
      | error e =>
          cases e with
          | eintr =>
              simp only [step, rxInputs, hpc]
              exact .still
          | eagain =>
              simp only [step, rxInputs, hpc]
              exact .moved hfrom ⟨rfl, rfl⟩ (by simp)
          | other =>
              simp only [step, rxInputs, hpc]
              exact .moved hfrom ⟨rfl, rfl⟩ (by simp)
      | ok data =>
          by_cases hdata : data.take uartBufferSize = []
          · simp only [step, rxInputs, hpc, hdata, if_true, ne_eq, not_true, and_false, if_false]
            exact .moved hfrom ⟨rfl, rfl⟩ (by simp)
          · simp only [step, rxInputs, hpc, hdata, if_false, ne_eq, not_false_iff, and_self,
              if_true]
            exact .fed hpc
  | _ =>
      have hnone : s.rxInputs (.uartRead reply) = [] := by
        cases reply with
        | error e => rfl
        | ok data => exact if_neg fun h => by cases hpc.symm.trans h.1
      rw [hnone]
      simp only [step, hpc]
      exact .still

theorem stepped_pop : s.Stepped (s.rxInputs .pop) (s.step .pop).1 (s.step .pop).2 := by
  cases hpc : s.pc with
  | popping =>
      simp only [step, rxInputs, hpc, if_true, popTx]
      cases hfifo : s.dev.txFifo with
      | nil =>
          rw [call_daemonPop_nil hfifo]
          exact .starved hpc hfifo
      | cons slot rest =>
          rw [call_daemonPop_cons hfifo]
          by_cases hlen : slot.length = 0
          · simp only [hlen, if_true]
            exact .skipped hpc ⟨rfl, rfl⟩ hfifo (Or.inl hlen)
          · by_cases hmax : slot.length > safetyMaxFrameSize
            · simp only [hlen, hmax, if_false, or_true, if_true]
              rw [← hpc]
              exact .skipped hpc (hpc ▸ ⟨rfl, rfl⟩) hfifo (Or.inr hmax)
            · simp only [hlen, hmax, if_false, or_self]
              exact .found hpc hfifo (Nat.pos_of_ne_zero hlen) (Nat.not_lt.mp hmax)
  | _ =>
      simp only [step, rxInputs, hpc, reduceCtorEq, if_false]
      exact .still

theorem stepped_uartWrite (reply : Except UartError Nat) :
    s.Stepped [] (s.step (.uartWrite reply)).1 (s.step (.uartWrite reply)).2 := by
  cases hpc : s.pc with
  | writing frame off =>
      simp only [step, hpc]
      cases reply with
      | error e =>
          cases e with
          | other => exact .tore hpc
          | _ => exact .still
      | ok n =>
          simp only [writeAll]
          split
          · exact .wrotePart hpc ‹_›
          · exact .wroteAll hpc ‹_›
  | _ =>
      simp only [step, hpc]
      exact .still

theorem stepped (input : LinkdInput) :
    s.Stepped (s.rxInputs input) (s.step input).1 (s.step input).2 := by
  cases input with
  | stop =>
      cases hpc : s.pc with
      | top =>
          simp only [step, rxInputs, hpc]
          exact .moved (hpc ▸ ⟨rfl, rfl⟩) ⟨rfl, rfl⟩ (by simp)
      | _ =>
          simp only [step, rxInputs, hpc]
          exact .still
  | poll reply =>
      cases hpc : s.pc with
      | top =>
          have hfrom : s.pc.Between := hpc ▸ ⟨rfl, rfl⟩
          simp only [step, rxInputs, hpc]
          repeat' split
          all_goals first | exact .still | exact .moved hfrom ⟨rfl, rfl⟩ (by simp)
      | _ =>
          simp only [step, rxInputs, hpc]
          exact .still
  | uartRead reply => exact s.stepped_uartRead reply
  | push ctx =>
      cases hpc : s.pc with
      | pushing frames =>
          cases frames with
          | nil =>
              simp only [step, rxInputs, hpc]
              exact .still
          | cons frame frames =>
              simp only [step, rxInputs, hpc]
              exact .pushed ctx hpc
      | _ =>
          simp only [step, rxInputs, hpc]
          exact .still
  | pop => exact s.stepped_pop
  | uartWrite reply => exact s.stepped_uartWrite reply
  | supervisorRead => exact .read
  | other op ctx => exact .other op ctx

end LinkdHost

/-! ### The way up -/

@[simp] theorem LinkdPc.pending_pushNext (frames : List (List U8)) :
    (pushNext frames).pending = frames := by
  cases frames <;> rfl

section FlatMap
universe u v w
variable {α : Type u} {β : Type v} {γ : Type w} {f : β → List γ} {g : α → β}

theorem flatMap_map_nil (h : ∀ a, f (g a) = []) (as : List α) : (as.map g).flatMap f = [] := by
  rw [List.flatMap_map]
  exact List.flatMap_eq_nil_iff.mpr fun a _ => h a

theorem flatMap_map_one {k : α → γ} (h : ∀ a, f (g a) = [k a]) (as : List α) :
    (as.map g).flatMap f = as.map k := by
  rw [List.flatMap_map, List.map_eq_flatMap]
  exact List.flatMap_congr fun a _ => h a

theorem flatMap_map_self {g : γ → β} (h : ∀ c, f (g c) = [c]) (cs : List γ) :
    (cs.map g).flatMap f = cs := by
  rw [flatMap_map_one (k := id) h, List.map_id]

end FlatMap

/-- A call that leaves the RX queue as it is shows nothing on the way up. -/
theorem RxPath.step_driver_kept {p : RxPath} {op : { op : DevOp // op.Bystander }} {ctx : Context}
    (h : (p.dev.call ctx op.1).dev.rxFifo = p.dev.rxFifo) :
    p.step (.driver op ctx) = ({ p with dev := (p.dev.call ctx op.1).dev }, []) := by
  rw [RxPath.step, h, List.drop_length, List.map_nil]

namespace LinkdHost
variable {s s' : LinkdHost} {inputs : List RxInput} {events : List LinkdEvent}

/-- A pop on the way up. -/
theorem rxPath_pop {pc : LinkdPc} {dev : SafetyCoproDev} (hpc : s.pc = .popping)
    (hpending : pc.pending = []) (hdev : (s.dev.call {} daemonPop).dev = dev)
    (hkept : dev.rxFifo = s.dev.rxFifo) :
    s.rxPath.step (.driver ⟨daemonPop, daemonPop_bystander⟩ {}) =
      ({ s with dev, pc }.rxPath, []) := by
  have hnone : s.pc.pending = [] := by rw [hpc]; rfl
  have hkept' : (s.rxPath.dev.call {} daemonPop).dev.rxFifo = s.rxPath.dev.rxFifo := by
    rw [rxPath, hdev, hkept]
  rw [RxPath.step_driver_kept hkept']
  simp only [rxPath, hnone, hpending, hdev]

theorem Stepped.simulated (h : s.Stepped inputs s' events) :
    Machine.after RxPath.step s.rxPath inputs = s'.rxPath ∧
      Machine.outputs RxPath.step s.rxPath inputs = events.flatMap LinkdEvent.rx := by
  cases h with
  | still => exact ⟨rfl, rfl⟩
  | moved hfrom hto htop => exact ⟨by simp only [rxPath, hfrom.1, hto.1, Machine.after_nil], rfl⟩
  | fed hpc =>
      have hnone : s.pc.pending = [] := by rw [hpc]; rfl
      simp [rxPath, hnone, RxPath.step, LinkdEvent.rx]
  | @pushed ctx frame frames hpc =>
      have hsome : s.pc.pending = frame :: frames := by rw [hpc]; rfl
      simp [rxPath, hsome, RxPath.step, LinkdEvent.rx]
  | @found slot rest hpc hfifo hpos hmax =>
      have hstep := @rxPath_pop s (.writing slot 0) _ hpc rfl
        (congrArg Outcome.dev (call_daemonPop_cons hfifo)) rfl
      exact ⟨congrArg Prod.fst hstep, (List.append_nil _).trans (congrArg Prod.snd hstep)⟩
  | starved hpc hfifo =>
      have hstep := @rxPath_pop s .top _ hpc rfl
        (congrArg Outcome.dev (call_daemonPop_nil hfifo)) rfl
      exact ⟨congrArg Prod.fst hstep, (List.append_nil _).trans (congrArg Prod.snd hstep)⟩
  | skipped hpc hpc' hfifo hslot =>
      have hstep := rxPath_pop hpc hpc'.1 (congrArg Outcome.dev (call_daemonPop_cons hfifo)) rfl
      exact ⟨congrArg Prod.fst hstep, (List.append_nil _).trans (congrArg Prod.snd hstep)⟩
  | tore hpc => exact ⟨by simp only [rxPath, hpc, LinkdPc.pending, Machine.after_nil], rfl⟩
  | wrotePart hpc _ => exact ⟨by simp only [rxPath, hpc, LinkdPc.pending, Machine.after_nil], rfl⟩
  | wroteAll hpc _ => exact ⟨by simp only [rxPath, hpc, LinkdPc.pending, Machine.after_nil], rfl⟩
  | read =>
      simp only [Machine.after_cons, Machine.after_nil, Machine.outputs_cons, Machine.outputs_nil,
        RxPath.step, step, rxPath]
      cases (s.dev.safetyRead readBufferSize false false).result with
      | error e => exact ⟨rfl, rfl⟩
      | ok data => exact ⟨rfl, rfl⟩
  | other op ctx =>
      refine ⟨rfl, ?_⟩
      simp only [step, List.flatMap_append]
      rw [flatMap_map_one (f := LinkdEvent.rx) fun _ => rfl,
        flatMap_map_nil (f := LinkdEvent.rx) fun _ => rfl]
      rfl

theorem Stepped.chunk (h : s.Stepped inputs s' events) :
    inputs.flatMap RxInput.chunk = events.flatMap LinkdEvent.chunk := by
  cases h with
  | read =>
      simp only [step]
      cases (s.dev.safetyRead readBufferSize false false).result with
      | error e => rfl
      | ok data => rfl
  | other op ctx =>
      simp only [step, List.flatMap_append]
      rw [flatMap_map_nil (f := LinkdEvent.chunk) fun _ => rfl,
        flatMap_map_nil (f := LinkdEvent.chunk) fun _ => rfl]
      rfl
  | _ => rfl

/-- The daemon's steps and those of the others are a run of the system model. -/
theorem rxInv {dev : SafetyCoproDev} (h : dev.rxFifo = []) (inputs : List LinkdInput) :
    let s := Machine.after step { dev } inputs
    let events := Machine.outputs step { dev } inputs
    Scanner.feeds LinkFramer.feed [] (events.flatMap LinkdEvent.chunk) =
        ((events.flatMap LinkdEvent.rx).flatMap RxEvent.pushes ++ s.pc.pending, s.framer) ∧
      s.assembler = [] ∧
      (events.flatMap LinkdEvent.rx).flatMap RxEvent.parsed ++
          s.dev.rxFifo.map ParsedFrame.ofBytes =
        ((events.flatMap LinkdEvent.rx).flatMap RxEvent.accepted).map ParsedFrame.ofBytes ∧
      ∀ e ∈ events.flatMap LinkdEvent.rx, e.Proper := by
  intro s events
  obtain ⟨hafter, houtputs⟩ := @Machine.simulates _ _ _ step _ _ _ RxPath.step rxInputs
    (fun _ => True) (fun _ _ h => h) rxPath _ (fun s input _ => (s.stepped input).simulated.1)
    (fun s input _ => (s.stepped input).simulated.2) { dev } trivial inputs
  have hchunk := @Machine.translated_flatMap _ _ _ step _ rxInputs _ _ _
    (fun s input => (s.stepped input).chunk) { dev } inputs
  have hinv := rxInv_run h (Machine.translated step rxInputs { dev } inputs)
  have hstart : LinkdHost.rxPath { dev } = { dev } := rfl
  rw [hstart] at hafter houtputs
  rw [hafter, houtputs] at hinv
  have hframed := hinv.framed
  rw [hchunk] at hframed
  exact ⟨hframed, hinv.assembler, hinv.parsed, hinv.proper⟩

end LinkdHost

/-! ### The way down -/

/-- A slot that `safety_write` takes. There may be bytes behind the frame. -/
def Slot (slot : List U8) : Prop :=
  slot.length ≤ safetyMaxFrameSize ∧ safetyFrameValidate slot = .ok

theorem Slot.pos {slot : List U8} (h : Slot slot) : 0 < slot.length :=
  Nat.lt_of_lt_of_le (by decide) (safetyFrameValidate_ok_iff.mp h.2).header

/-- What was written is done with, on its way or still queued, and the bytes on the
UART are those of the frames done with and of the one on its way. -/
structure Relayed (events : List LinkdEvent) (s : LinkdHost) : Prop where
  valid : ∀ frame ∈ events.flatMap LinkdEvent.written, Slot frame
  midway : ∀ frame off, s.pc = .writing frame off → off < frame.length
  conserved : events.flatMap LinkdEvent.written =
    (events.flatMap LinkdEvent.done).map Prod.fst ++ s.pc.current ++ s.dev.txFifo
  out : events.flatMap LinkdEvent.bytesOut =
    (events.flatMap LinkdEvent.done).flatMap (fun d => d.1.take d.2) ++ s.pc.sent
  bounded : ∀ d ∈ events.flatMap LinkdEvent.done, d.2 ≤ d.1.length
  report : events.flatMap LinkdEvent.line = events.flatMap LinkdEvent.owed

/-- Another's call leaves the TX queue as it is or puts a slot behind the others. -/
theorem call_elsewhere (dev : SafetyCoproDev) (ctx : Context) {op : DevOp} (h : op.Elsewhere) :
    (dev.call ctx op).dev.txFifo = dev.txFifo ∨
      ∃ slot, Slot slot ∧ (dev.call ctx op).dev.txFifo = dev.txFifo ++ [slot] := by
  have htx : (dev.call ctx op).dev.txFifo = (dev.queues.apply (dev.queueOp ctx op)).tx :=
    congrArg Queues.tx (SafetyCoproDev.call_queues ctx op)
  have heffect := dev.queueOp_effect ctx op
  rw [htx]
  generalize dev.queueOp ctx op = q at heffect ⊢
  cases heffect with
  | written hmax hvalid =>
      by_cases hroom : dev.txFifo.length < dev.fifoDepth
      · rw [Queues.apply_pushTx _ hroom]
        exact Or.inr ⟨_, ⟨hmax, hvalid⟩, rfl⟩
      · rw [Queues.apply_pushTx_full _ (Nat.not_lt.mp hroom)]
        exact Or.inl rfl
  | popped fault => exact h.elim
  | read count nonblock fault => exact h.elim
  | pushed hframe => exact h.elim
  | made op s => exact Or.inl (Queues.apply_pushRx_tx _)
  | kept op => exact Or.inl rfl

theorem pushRxFrame_txFifo (dev : SafetyCoproDev) (ctx : Context) (frame : List U8) :
    (pushRxFrame dev ctx frame).1.txFifo = dev.txFifo := by
  rw [pushRxFrame]
  split
  · rfl
  · exact call_txBystander dev ctx trivial

/-- What one step adds on the way down. -/
structure Adds (es : List LinkdEvent) (written : List (List U8)) (done : List (List U8 × Nat))
    (out : List U8) : Prop where
  written : es.flatMap LinkdEvent.written = written
  done : es.flatMap LinkdEvent.done = done
  out : es.flatMap LinkdEvent.bytesOut = out
  report : es.flatMap LinkdEvent.line = es.flatMap LinkdEvent.owed

namespace Relayed
variable {events es : List LinkdEvent} {s s' : LinkdHost} {written : List (List U8)}
  {done : List (List U8 × Nat)} {out : List U8}

theorem init {dev : SafetyCoproDev} (h : dev.txFifo = []) : Relayed [] { dev } where
  valid := List.forall_mem_nil _
  midway := by
    intro frame off hpc
    cases hpc
  conserved := h.symm
  out := rfl
  bounded := List.forall_mem_nil _
  report := rfl

theorem slots (h : Relayed events s) : ∀ slot ∈ s.dev.txFifo, Slot slot := by
  intro slot hslot
  refine h.valid slot ?_
  rw [h.conserved]
  exact List.mem_append_right _ hslot

/-- A step keeps the balance if its own is even. -/
theorem adds (h : Relayed events s) (hes : Adds es written done out)
    (hvalid : ∀ frame ∈ written, Slot frame)
    (hmidway : ∀ frame off, s'.pc = .writing frame off → off < frame.length)
    (hconserved : s.pc.current ++ s.dev.txFifo ++ written =
      done.map Prod.fst ++ s'.pc.current ++ s'.dev.txFifo)
    (hout : s.pc.sent ++ out = done.flatMap (fun d => d.1.take d.2) ++ s'.pc.sent)
    (hbounded : ∀ d ∈ done, d.2 ≤ d.1.length) : Relayed (events ++ es) s' where
  valid := by
    rw [List.flatMap_append, hes.written]
    exact List.forall_mem_append.mpr ⟨h.valid, hvalid⟩
  midway := hmidway
  conserved := by
    rw [List.flatMap_append, List.flatMap_append, hes.written, hes.done, h.conserved,
      List.map_append, List.append_assoc, List.append_assoc, ← List.append_assoc s.pc.current,
      hconserved]
    simp only [List.append_assoc]
  out := by
    rw [List.flatMap_append, List.flatMap_append, hes.out, hes.done, h.out, List.append_assoc,
      hout, List.flatMap_append, List.append_assoc]
  bounded := by
    rw [List.flatMap_append, hes.done]
    exact List.forall_mem_append.mpr ⟨h.bounded, hbounded⟩
  report := by
    rw [List.flatMap_append, List.flatMap_append, h.report, hes.report]

/-- A step that neither takes from the TX queue nor writes to the UART. -/
theorem quiet (h : Relayed events s) (hes : Adds es [] [] [])
    (hpc : s'.pc = s.pc ∨ s.pc.current = [] ∧ s'.pc.current = [])
    (htx : s'.dev.txFifo = s.dev.txFifo) : Relayed (events ++ es) s' := by
  have hsame : s'.pc.current = s.pc.current ∧ s'.pc.sent = s.pc.sent := by
    obtain hpc | ⟨hfrom, hto⟩ := hpc
    · rw [hpc]
      exact ⟨rfl, rfl⟩
    · rw [hfrom, hto, LinkdPc.sent_of_current_nil hfrom, LinkdPc.sent_of_current_nil hto]
      exact ⟨rfl, rfl⟩
  refine h.adds hes (List.forall_mem_nil _) ?_ ?_ ?_ (List.forall_mem_nil _)
  · intro frame off hwriting
    obtain hpc | ⟨-, hto⟩ := hpc
    · exact h.midway frame off (hpc ▸ hwriting)
    · rw [hwriting] at hto
      cases hto
  · rw [hsame.1, htx, List.append_nil]
    rfl
  · rw [hsame.2, List.append_nil]
    rfl

theorem step_other (h : Relayed events s) (op : { op : DevOp // op.Elsewhere }) (ctx : Context) :
    Relayed (events ++ (s.step (.other op ctx)).2) (s.step (.other op ctx)).1 := by
  have hadds : ∀ (made wrote : List (List U8)),
      Adds (made.map .made ++ wrote.map .wrote) wrote [] [] := by
    intro made wrote
    refine ⟨?_, ?_, ?_, ?_⟩
    · rw [List.flatMap_append, flatMap_map_nil fun _ => rfl,
        flatMap_map_self (f := LinkdEvent.written) (g := LinkdEvent.wrote) fun _ => rfl]
      rfl
    · rw [List.flatMap_append, flatMap_map_nil fun _ => rfl, flatMap_map_nil fun _ => rfl]
      rfl
    · rw [List.flatMap_append, flatMap_map_nil fun _ => rfl, flatMap_map_nil fun _ => rfl]
      rfl
    · simp only [List.flatMap_append]
      rw [flatMap_map_nil fun _ => rfl, flatMap_map_nil fun _ => rfl, flatMap_map_nil fun _ => rfl,
        flatMap_map_nil fun _ => rfl]
  simp only [LinkdHost.step]
  obtain htx | ⟨slot, hslot, htx⟩ := call_elsewhere s.dev ctx op.2
  · rw [htx, List.drop_length]
    exact h.quiet (hadds _ []) (Or.inl rfl) htx
  · rw [htx, List.drop_left]
    refine h.adds (hadds _ [slot]) (List.forall_mem_singleton.mpr hslot) h.midway ?_ ?_
      (List.forall_mem_nil _)
    · simp only [htx, List.map_nil, List.nil_append, List.append_assoc]
    · exact List.append_nil _

theorem take_append_written (frame : List U8) (off n : Nat) :
    frame.take off ++ (frame.drop off).take n =
      frame.take (off + ((frame.drop off).take n).length) := by
  rw [List.take_add, ← List.prefix_iff_eq_take.mp (List.take_prefix n (frame.drop off))]

theorem step (h : Relayed events s) {inputs : List RxInput} (hstep : s.Stepped inputs s' es) :
    Relayed (events ++ es) s' := by
  cases hstep with
  | still => exact h.quiet ⟨rfl, rfl, rfl, rfl⟩ (Or.inl rfl) rfl
  | moved hfrom hto htop => exact h.quiet ⟨rfl, rfl, rfl, rfl⟩ (Or.inr ⟨hfrom.2, hto.2⟩) rfl
  | fed hpc =>
      refine h.quiet ⟨rfl, rfl, rfl, rfl⟩ (Or.inr ⟨by rw [hpc]; rfl, ?_⟩) rfl
      exact LinkdPc.current_pushNext _
  | pushed ctx hpc =>
      refine h.quiet ⟨rfl, rfl, rfl, rfl⟩ (Or.inr ⟨by rw [hpc]; rfl, ?_⟩)
        (pushRxFrame_txFifo s.dev ctx _)
      exact LinkdPc.current_pushNext _
  | found hpc hfifo hpos hmax =>
      have hadds : Adds [] [] [] [] := ⟨rfl, rfl, rfl, rfl⟩
      refine h.adds hadds (List.forall_mem_nil _) ?_ ?_ ?_ (List.forall_mem_nil _)
      · intro frame off hpc'
        obtain ⟨rfl, rfl⟩ := LinkdPc.writing.inj hpc'
        exact hpos
      · rw [hpc, hfifo]
        simp [LinkdPc.current]
      · rw [hpc]
        rfl
  | starved hpc hfifo => exact h.quiet ⟨rfl, rfl, rfl, rfl⟩ (Or.inr ⟨by rw [hpc]; rfl, rfl⟩) rfl
  | @skipped slot rest pc hpc hpc' hfifo hslot =>
      have hin : Slot slot := h.slots slot (by rw [hfifo]; exact List.mem_cons_self)
      have hpos := hin.pos
      have hmax := hin.1
      omega
  | @tore frame off hpc =>
      have hoff := h.midway frame off hpc
      have hadds : Adds [.passed frame off, .logged (.ofFrame .uartTxFailed frame)] []
          [(frame, off)] [] := by
        refine ⟨rfl, rfl, rfl, ?_⟩
        simp [LinkdEvent.line, LinkdEvent.owed, Nat.ne_of_lt hoff]
      refine h.adds hadds (List.forall_mem_nil _) ?_ ?_ ?_
        (List.forall_mem_singleton.mpr (Nat.le_of_lt hoff))
      · intro frame' off' hpc'
        cases hpc'
      · rw [hpc]
        simp [LinkdPc.current]
      · rw [hpc]
        simp [LinkdPc.sent]
  | @wrotePart frame off n hpc hoff =>
      have hadds : Adds [.uartOut ((frame.drop off).take n)] [] [] ((frame.drop off).take n) :=
        ⟨rfl, rfl, List.append_nil _, rfl⟩
      refine h.adds hadds (List.forall_mem_nil _) ?_ ?_ ?_ (List.forall_mem_nil _)
      · intro frame' off' hpc'
        obtain ⟨rfl, rfl⟩ := LinkdPc.writing.inj hpc'
        exact hoff
      · rw [hpc]
        simp [LinkdPc.current]
      · rw [hpc]
        exact take_append_written frame off n
  | @wroteAll frame off n hpc hoff =>
      have hlen : off + ((frame.drop off).take n).length = frame.length := by
        have hmid := h.midway frame off hpc
        rw [List.length_take, List.length_drop] at hoff ⊢
        omega
      have hadds : Adds [.uartOut ((frame.drop off).take n), .passed frame frame.length,
          .logged (.ofFrame .popTxUart frame)] [] [(frame, frame.length)]
          ((frame.drop off).take n) := by
        refine ⟨rfl, rfl, List.append_nil _, ?_⟩
        simp [LinkdEvent.line, LinkdEvent.owed]
      have hall := take_append_written frame off n
      rw [hlen] at hall ⊢
      refine h.adds hadds (List.forall_mem_nil _) ?_ ?_ ?_
        (List.forall_mem_singleton.mpr (Nat.le_refl _))
      · intro frame' off' hpc'
        cases hpc'
      · rw [hpc]
        simp [LinkdPc.current]
      · rw [hpc]
        simpa only [LinkdPc.sent, List.flatMap_singleton, List.append_nil] using hall
  | read =>
      have htx : (s.dev.safetyRead readBufferSize false false).dev.txFifo = s.dev.txFifo :=
        @call_txBystander s.dev {} (.read readBufferSize false false) trivial
      simp only [LinkdHost.step]
      cases (s.dev.safetyRead readBufferSize false false).result with
      | error e => exact h.quiet ⟨rfl, rfl, rfl, rfl⟩ (Or.inl rfl) htx
      | ok data => exact h.quiet ⟨rfl, rfl, rfl, rfl⟩ (Or.inl rfl) htx
  | other op ctx => exact h.step_other op ctx

end Relayed

theorem relayed_run {dev : SafetyCoproDev} (h : dev.txFifo = []) (inputs : List LinkdInput) :
    Relayed (Machine.outputs LinkdHost.step { dev } inputs)
      (Machine.after LinkdHost.step { dev } inputs) :=
  Machine.run_history (P := fun _ events s => Relayed events s)
    (fun _ _ s input h => h.step (s.stepped input)) (.init h) inputs

/-! ### The firmware behind the UART -/

/-- The bytes that `write_all` has still to write. -/
def LinkdPc.unsent : LinkdPc → List U8
  | .writing frame off => frame.drop off
  | _ => []

theorem LinkdPc.sent_append_unsent (pc : LinkdPc) : pc.sent ++ pc.unsent = pc.current.flatten := by
  cases pc with
  | writing frame off =>
      rw [sent, unsent, current, List.take_append_drop, List.flatten_cons, List.flatten_nil,
        List.append_nil]
  | _ => rfl

theorem rxFeed_validFrame {frame : List U8} (h : ValidFrame frame) :
    rxFeed {} frame = ({}, [.ofBytes frame]) := by
  have hstep := frameStep_frame safetyHeaderSize h.isFrame []
  rw [List.append_nil] at hstep
  rw [rxFeed_eq_tokens, incremental_firmware.tokens_found hstep, List.drop_length,
    Scanner.Incremental.tokens_wait (frameStep_nil _), List.flatMap_singleton, message_valid h]
  rfl

theorem rxFeed_validFrames {frames : List (List U8)} (h : ∀ frame ∈ frames, ValidFrame frame) :
    rxFeed {} frames.flatten = ({}, frames.map SafetyRxFrame.ofBytes) := by
  induction frames with
  | nil => rfl
  | cons frame frames ih =>
      obtain ⟨hframe, hframes⟩ := List.forall_mem_cons.mp h
      rw [List.flatten_cons, rxFeed_append, rxFeed_validFrame hframe, ih hframes]
      rfl

namespace Relayed
variable {events : List LinkdEvent} {s : LinkdHost} (h : Relayed events s)
include h

/-- The daemon gives up on the TX queue when it is empty. -/
theorem starved {inputs : List RxInput} {s' : LinkdHost} {es : List LinkdEvent}
    (hstep : s.Stepped inputs s' es) (hpc : s.pc ≠ .top) (hpc' : s'.pc = .top) :
    s.dev.txFifo = [] := by
  cases hstep with
  | still => exact absurd hpc' hpc
  | moved hfrom hto htop => exact absurd hpc' htop
  | fed hreading => exact absurd hpc' (LinkdPc.pushNext_ne_top _)
  | pushed ctx hpushing => exact absurd hpc' (LinkdPc.pushNext_ne_top _)
  | starved hpopping hfifo => exact hfifo
  | @skipped slot rest pc hpopping hto hfifo hslot =>
      have hin : Slot slot := h.slots slot (by rw [hfifo]; exact List.mem_cons_self)
      have hpos := hin.pos
      have hmax := hin.1
      omega
  | read =>
      refine absurd ?_ hpc
      rw [← hpc', LinkdHost.step]
      dsimp only
      cases (s.dev.safetyRead readBufferSize false false).result <;> rfl
  | other op ctx => exact absurd hpc' hpc
  | found => cases hpc'
  | tore => cases hpc'
  | wrotePart => cases hpc'
  | wroteAll => cases hpc'

/-- Only a failed write leaves a frame torn, and the report tells. -/
theorem whole (hreport : ∀ line ∈ events.flatMap LinkdEvent.line, line.kind ≠ .uartTxFailed) :
    ∀ d ∈ events.flatMap LinkdEvent.done, d.1.take d.2 = d.1 := by
  rintro ⟨frame, out⟩ hd
  by_cases hout : out = frame.length
  · rw [hout, List.take_length]
  · obtain ⟨e, he, hdone⟩ := List.mem_flatMap.mp hd
    cases e with
    | passed frame' out' =>
        obtain ⟨rfl, rfl⟩ := Prod.mk.inj (List.mem_singleton.mp hdone)
        have howed : LinkdLogLine.ofFrame .uartTxFailed frame ∈ events.flatMap LinkdEvent.owed := by
          refine List.mem_flatMap.mpr ⟨_, he, ?_⟩
          rw [LinkdEvent.owed, if_neg hout]
          exact List.mem_cons_self
        rw [← h.report] at howed
        refine absurd ?_ (hreport _ howed)
        rw [LinkdLogLine.ofFrame]
        split <;> rfl
    | _ => cases hdone

theorem received (hreport : ∀ line ∈ events.flatMap LinkdEvent.line, line.kind ≠ .uartTxFailed)
    (hvalid : ∀ frame ∈ events.flatMap LinkdEvent.written, ValidFrame frame) :
    rxFeed {} (events.flatMap LinkdEvent.bytesOut ++ s.pc.unsent) =
      ({}, ((events.flatMap LinkdEvent.done).map Prod.fst ++ s.pc.current).map
        SafetyRxFrame.ofBytes) := by
  have hbytes : (events.flatMap LinkdEvent.done).flatMap (fun d => d.1.take d.2) =
      ((events.flatMap LinkdEvent.done).map Prod.fst).flatten := by
    rw [List.flatMap_congr (h.whole hreport), List.flatMap_def]
  rw [h.out, List.append_assoc, LinkdPc.sent_append_unsent, hbytes, ← List.flatten_append]
  refine rxFeed_validFrames fun frame hframe => hvalid frame ?_
  rw [h.conserved]
  exact List.mem_append_left _ hframe

end Relayed

/-! ### Runs of the daemon -/

theorem linkFramer_feeds_flatten (chunks : List (List U8)) :
    Scanner.feeds LinkFramer.feed [] chunks = LinkFramer.feed [] chunks.flatten := by
  rw [linkFramer_feeds, LinkFramer.feed_eq_tokens]
  rfl

/-- Up: however reads and errors of the UART, pushes, reads of the supervisor and
calls of others follow each other, the daemon offers the driver every frame in the
bytes it read, once and in order, and the supervisor gets those that were accepted
with the driver's own, one a read. The report has a line for every frame pushed and
every frame written, in order, and no other. -/
theorem linkd_conveys_up {hbTimeoutMs : U32} {fifoDepth cpus : Nat} {dev : SafetyCoproDev}
    (h : safetyCoproInit hbTimeoutMs fifoDepth cpus = some dev) (inputs : List LinkdInput) :
    let s := Machine.after LinkdHost.step { dev } inputs
    let events := Machine.outputs LinkdHost.step { dev } inputs
    let rx := events.flatMap LinkdEvent.rx
    LinkFramer.feed [] (events.flatMap LinkdEvent.chunk).flatten =
        (rx.flatMap RxEvent.pushes ++ s.pc.pending, s.framer) ∧
      rx.flatMap RxEvent.parsed ++ s.dev.rxFifo.map ParsedFrame.ofBytes =
        (rx.flatMap RxEvent.accepted).map ParsedFrame.ofBytes ∧
      s.assembler = [] ∧
      (∀ frames, .read frames ∈ rx →
        ∃ f, frames = [f] ∧ (f.validateResult = .ok ∨ f.validateResult = .badChecksum)) ∧
      events.flatMap LinkdEvent.line = events.flatMap LinkdEvent.owed := by
  intro s events rx
  obtain ⟨hrx, htx⟩ := SafetyCoproDev.init_fifos h
  obtain ⟨hframed, hassembler, hparsed, hproper⟩ := LinkdHost.rxInv hrx inputs
  rw [linkFramer_feeds_flatten] at hframed
  exact ⟨hframed, hparsed, hassembler, fun _ hread => hproper _ hread,
    (relayed_run htx inputs).report⟩

/-- Down: whatever the UART takes of a write, what the TX queue accepted is written,
being written or still queued, in order. Without a failed write in the report every
frame goes out whole, and if nothing stands behind the frames the firmware receives
them all. The daemon goes back to `poll` only from an empty queue. -/
theorem linkd_conveys_down {hbTimeoutMs : U32} {fifoDepth cpus : Nat} {dev : SafetyCoproDev}
    (h : safetyCoproInit hbTimeoutMs fifoDepth cpus = some dev) (inputs : List LinkdInput) :
    let s := Machine.after LinkdHost.step { dev } inputs
    let events := Machine.outputs LinkdHost.step { dev } inputs
    let done := events.flatMap LinkdEvent.done
    let written := events.flatMap LinkdEvent.written
    written = done.map Prod.fst ++ s.pc.current ++ s.dev.txFifo ∧
      events.flatMap LinkdEvent.bytesOut =
        done.flatMap (fun d => d.1.take d.2) ++ s.pc.sent ∧
      ((∀ line ∈ events.flatMap LinkdEvent.line, line.kind ≠ .uartTxFailed) →
        (∀ d ∈ done, d.1.take d.2 = d.1) ∧
        ((∀ frame ∈ written, ValidFrame frame) →
          rxFeed {} (events.flatMap LinkdEvent.bytesOut ++ s.pc.unsent) =
            ({}, (done.map Prod.fst ++ s.pc.current).map SafetyRxFrame.ofBytes))) ∧
      (∀ input, s.pc ≠ .top → (s.step input).1.pc = .top → s.dev.txFifo = []) := by
  intro s events done written
  have hinv : Relayed events s := relayed_run (SafetyCoproDev.init_fifos h).2 inputs
  refine ⟨hinv.conserved, hinv.out, fun hreport => ⟨hinv.whole hreport, hinv.received hreport⟩, ?_⟩
  intro input hpc htop
  exact hinv.starved (s.stepped input) hpc htop

/-- A frame is written in two parts, with an interrupt between them, while a
heartbeat comes up and the supervisor reads it. -/
def ackAndHeartbeat : List LinkdInput :=
  [.other ⟨.write (buildAck 1 0 7) false, trivial⟩ {}, .poll (.ready true),
    .uartRead (.ok (packFrame safetyFrameHeartbeat 1 0 [])), .push {}, .uartRead (.error .eagain),
    .pop, .uartWrite (.ok 5), .supervisorRead, .uartWrite (.error .eintr), .uartWrite (.ok 15),
    .pop]

theorem linkd_conveys_up_ackAndHeartbeat :
    ∃ dev, safetyCoproInit 0 0 1 = some dev ∧
      let s := Machine.after LinkdHost.step { dev } ackAndHeartbeat
      let events := Machine.outputs LinkdHost.step { dev } ackAndHeartbeat
      ((events.flatMap LinkdEvent.rx).flatMap RxEvent.parsed).length = 1 ∧
        (events.flatMap LinkdEvent.line).length = 2 ∧ s.assembler = [] :=
  ⟨_, rfl, by decide +kernel, by decide +kernel,
    (@linkd_conveys_up 0 0 1 _ rfl ackAndHeartbeat).2.2.1⟩

theorem linkd_conveys_down_ackAndHeartbeat :
    ∃ dev, safetyCoproInit 0 0 1 = some dev ∧
      let s := Machine.after LinkdHost.step { dev } ackAndHeartbeat
      let events := Machine.outputs LinkdHost.step { dev } ackAndHeartbeat
      s.pc = .top ∧
        rxFeed {} (events.flatMap LinkdEvent.bytesOut ++ s.pc.unsent) =
          ({}, ((events.flatMap LinkdEvent.done).map Prod.fst ++ s.pc.current).map
            SafetyRxFrame.ofBytes) :=
  ⟨_, rfl, by decide +kernel,
    ((@linkd_conveys_down 0 0 1 _ rfl ackAndHeartbeat).2.2.1 (by decide +kernel)).2
      (by decide +kernel)⟩

end SafetyCopro
