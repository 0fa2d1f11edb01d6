import SafetyCopro.Firmware.Turns

/-!
What the command handler sends for the frames it takes from the queue. A turn of
its loop may first send what the command asks for; it ends with one `ACK` or one
`NACK` of the frame's number, and a turn that ends with a `NACK` has written
nothing. The other tasks and the interrupt run at any time in between.
-/

namespace SafetyCopro

/-- A command that `handle_command` carries out. -/
def SafetyRxFrame.Accepted (frame : SafetyRxFrame) : Prop :=
  frame.hdr.type = safetyFrameCommand ∧ frame.hdr.payloadLength = 8 ∧
    byteAt frame.payload 0 ∈ [safetyCmdGetStatus, safetyCmdInjectFault, safetyCmdRequestRecovery,
      safetyCmdEnterSafeMode, safetyCmdResetFaultState] ∧
    (byteAt frame.payload 0 = safetyCmdInjectFault → byteAt frame.payload 1 ∈ [1, 2, 3])

instance (frame : SafetyRxFrame) : Decidable frame.Accepted :=
  inferInstanceAs (Decidable (_ ∧ _ ∧ _ ∧ (_ → _)))

/-- The type and the payload of a frame that is sent. -/
abbrev SentFrame := U8 × List U8

/-- The one `ACK` or `NACK` that a frame gets. -/
def SafetyRxFrame.IsReply (frame : SafetyRxFrame) (sent : SentFrame) : Prop :=
  if frame.Accepted then sent = (safetyFrameAck, safetyAckPayload frame.hdr.sequenceId)
  else ∃ reason, sent = (safetyFrameNack, safetyNackPayloadBytes frame.hdr.sequenceId reason)

/-- What a command may ask for besides its reply. -/
def SentFrame.IsExtra (sent : SentFrame) : Prop :=
  sent.1 = safetyFrameTelemetry ∨ sent.1 = safetyFrameRecoveryReport

def sentFrames (evs : List FirmwareEvent) : List SentFrame :=
  evs.filterMap fun
    | .sendFrame type payload => some (type, payload)
    | .pollOut _ => none

/-- A step of the handler: the frame it takes from the queue, what it sends, and
the fault state before and behind it. -/
structure StepRecord where
  takes : Option SafetyRxFrame
  sends : List SentFrame
  before : SafetyFaultState
  behind : SafetyFaultState
deriving DecidableEq, Repr

inductive HandlerEvent
  -- the interrupt has put the frame into the queue
  | queued (frame : SafetyRxFrame)
  | stepped (step : StepRecord)
deriving DecidableEq, Repr

def queuedOf (log : List HandlerEvent) : List SafetyRxFrame :=
  log.filterMap fun
    | .queued frame => some frame
    | .stepped _ => none

def stepsOf (log : List HandlerEvent) : List StepRecord :=
  log.filterMap fun
    | .queued _ => none
    | .stepped step => some step

namespace Firmware

/-- The handler waits for a frame, or for the mutex. -/
def waits (fw : Firmware) : Bool :=
  match fw.tx .commandHandler with
  | .idle => (fw.ops .commandHandler).isEmpty && fw.rxMsgq.isEmpty
  | .locking _ => fw.txMutex.isSome
  | .putting _ => false

def recordStep (fw : Firmware) (nowMs : U32) : StepRecord where
  takes := fw.takes .commandHandler
  sends := sentFrames (fw.run .commandHandler nowMs).2
  before := fw.faults
  behind := (fw.run .commandHandler nowMs).1.faults

/-- The firmware, with a record of what concerns the handler. Where the handler
waits, its step does nothing. -/
def watch (fw : Firmware) (a : FirmwareInput) : Firmware × List HandlerEvent :=
  ((fw.step a).1,
    match a with
    | .receive bytes => ((fw.receive bytes).rxMsgq.drop fw.rxMsgq.length).map .queued
    | .task .commandHandler nowMs => if fw.waits then [] else [.stepped (fw.recordStep nowMs)]
    | .task _ _ => [])

/-- No frame takes the handler more steps than `REQUEST_RECOVERY`. -/
def handlerSteps : Nat := 56

end Firmware

/-- The steps of a turn with this frame, which have sent so many replies. -/
structure Handling (frame : SafetyRxFrame) (steps : List StepRecord) (replies : Nat) : Prop where
  takes : steps.filterMap StepRecord.takes = [frame]
  sends : ∃ extras sent, steps.flatMap StepRecord.sends = extras ++ sent ∧
    (∀ s ∈ extras, SentFrame.IsExtra s) ∧ (∀ s ∈ sent, frame.IsReply s) ∧ sent.length = replies
  refused : ¬ frame.Accepted → ∀ step ∈ steps, step.behind = step.before
  steps_le : steps.length ≤ Firmware.handlerSteps

/-- The frames the handler was given are those of the turns it has ended, with
their replies, of the turn it is in, and those still in the queue. -/
structure Serving (queue : List SafetyRxFrame) (log : List HandlerEvent) (fw : Firmware)
    (turns : List (SafetyRxFrame × List StepRecord))
    (current : Option (SafetyRxFrame × List StepRecord)) : Prop where
  frames : queue ++ queuedOf log = (turns ++ current.toList).map Prod.fst ++ fw.rxMsgq
  steps : stepsOf log = (turns ++ current.toList).flatMap Prod.snd
  answered : ∀ turn ∈ turns, Handling turn.1 turn.2 1
  begun : ∀ turn ∈ current, turn.2.length < Firmware.handlerSteps ∧
    ∃ replies ≤ 1, Handling turn.1 turn.2 replies
  atHead : fw.AtHead .commandHandler ↔ current = none
  -- it waits for a frame, or for a task that is putting its own frame out
  waits : fw.waits → fw.AtHead .commandHandler ∧ fw.rxMsgq = [] ∨
    ∃ t bytes, t ≠ .commandHandler ∧ fw.txMutex = some t ∧ fw.tx t = .putting bytes

/-! ### The operations of a turn -/

/-- What the handler may have to do before its reply. -/
def TaskOp.IsPrelude : TaskOp → Prop
  | .store _ _ => True
  | .clearFaultCount => True
  | .replyStatus => True
  | .reportRecovery => True
  | .send type _ => type = safetyFrameTelemetry ∨ type = safetyFrameRecoveryReport
  | _ => False

/-- What was sent for the frame, and what is left to do for it. -/
inductive Answering (frame : SafetyRxFrame) : List SentFrame → List TaskOp → Prop
  | before {extras : List SentFrame} {pre : List TaskOp} {reply : SentFrame}
      (hextras : ∀ s ∈ extras, SentFrame.IsExtra s) (hpre : ∀ op ∈ pre, op.IsPrelude)
      (hrefused : ¬ frame.Accepted → pre = []) (hreply : frame.IsReply reply) :
      Answering frame extras (pre ++ [.send reply.1 reply.2])
  | behind {extras : List SentFrame} {reply : SentFrame}
      (hextras : ∀ s ∈ extras, SentFrame.IsExtra s) (hreply : frame.IsReply reply) :
      Answering frame (extras ++ [reply]) []

variable {frame : SafetyRxFrame}

theorem applyInject_eq_none_iff {faultType : U8} :
    applyInject faultType = none ↔ faultType ∉ [1, 2, 3] := by
  revert faultType
  decide

theorem answering_ack {pre : List TaskOp} (hacc : frame.Accepted)
    (hpre : ∀ op ∈ pre, op.IsPrelude) :
    Answering frame [] (pre ++ [sendAck frame.hdr.sequenceId]) := by
  have hreply : frame.IsReply (safetyFrameAck, safetyAckPayload frame.hdr.sequenceId) := by
    rw [SafetyRxFrame.IsReply, if_pos hacc]
  exact .before (by simp) hpre (absurd hacc) hreply

theorem answering_nack (hnot : ¬ frame.Accepted) (reason : U8) :
    Answering frame [] [sendNack frame.hdr.sequenceId reason] := by
  have hreply : frame.IsReply
      (safetyFrameNack, safetyNackPayloadBytes frame.hdr.sequenceId reason) := by
    rw [SafetyRxFrame.IsReply, if_neg hnot]
    exact ⟨reason, rfl⟩
  exact @Answering.before frame [] [] _ (by simp) (by simp) (fun _ => rfl) hreply

theorem answering_handleCommand (htype : frame.hdr.type = safetyFrameCommand)
    (hlen : frame.hdr.payloadLength = 8) : Answering frame [] (handleCommand frame) := by
  have hacc : byteAt frame.payload 0 ∈ [safetyCmdGetStatus, safetyCmdRequestRecovery,
      safetyCmdEnterSafeMode, safetyCmdResetFaultState] → frame.Accepted := by
    intro hmem
    refine ⟨htype, hlen, ?_, fun heq => ?_⟩
    · exact (show [_, _, _, _] ⊆ [_, _, _, _, _] by decide) hmem
    · rw [heq] at hmem
      exact absurd hmem (by decide)
  rw [handleCommand]
  dsimp only
  rw [if_neg (not_not.mpr hlen)]
  split
  · rename_i h
    exact @answering_ack frame [.replyStatus] (hacc (by simp [h])) (by simp [TaskOp.IsPrelude])
  split
  · rename_i h
    split
    · rename_i hnone
      exact answering_nack (fun hacc => applyInject_eq_none_iff.mp hnone (hacc.2.2.2 h)) _
    · rename_i op hop
      obtain ⟨flag, rfl⟩ := applyInject_store hop
      have harg : byteAt frame.payload 1 ∈ [1, 2, 3] := by
        by_contra hnot
        rw [applyInject_eq_none_iff.mpr hnot] at hop
        cases hop
      exact @answering_ack frame [_] ⟨htype, hlen, by simp [h], fun _ => harg⟩
        (by simp [TaskOp.IsPrelude])
  split
  · rename_i h
    exact @answering_ack frame (clearAllInjects ++ [.clearFaultCount, .store .inSafeMode false])
      (hacc (by simp [h])) (by simp [TaskOp.IsPrelude, clearAllInjects])
  split
  · rename_i h
    exact @answering_ack frame [.store .inSafeMode true] (hacc (by simp [h]))
      (by simp [TaskOp.IsPrelude])
  split
  · rename_i h
    exact @answering_ack frame (clearAllInjects ++ [.store .inSafeMode false, .reportRecovery])
      (hacc (by simp [h])) (by simp [TaskOp.IsPrelude, clearAllInjects])
  · rename_i hstatus hinject hreset hsafe hrecovery
    refine answering_nack (fun hacc => ?_) _
    have hmem := hacc.2.2.1
    simp [hstatus, hinject, hreset, hsafe, hrecovery] at hmem

theorem answering_handleFrame (frame : SafetyRxFrame) :
    Answering frame [] (handleFrame frame) := by
  rw [handleFrame]
  split
  · rename_i htype
    by_cases hlen : frame.hdr.payloadLength = 8
    · exact answering_handleCommand htype hlen
    · rw [handleCommand, if_pos hlen]
      exact answering_nack (fun hacc => hlen hacc.2.1) _
  · rename_i htype
    exact answering_nack (fun hacc => htype hacc.1) _

theorem handleFrame_ne_nil (frame : SafetyRxFrame) : handleFrame frame ≠ [] := by
  have h := handleFrame_handled frame
  generalize handleFrame frame = ops at h
  cases h <;> exact List.cons_ne_nil _ _

theorem SafetyRxFrame.IsReply.fits {reply : SentFrame} (h : frame.IsReply reply) :
    reply.2.length ≤ safetyMaxPayload := by
  rw [IsReply] at h
  split at h
  · rw [h]
    exact (show 4 ≤ 256 by decide)
  · obtain ⟨reason, rfl⟩ := h
    exact (show 4 ≤ 256 by decide)

theorem totalWork_handleFrame (frame : SafetyRxFrame) :
    totalWork (handleFrame frame) < Firmware.handlerSteps := by
  have h := handleFrame_handled frame
  generalize handleFrame frame = ops at h
  cases h with
  | refused reason hnot => exact (show 23 < 56 by decide)
  | status hcommand => exact (show 51 < 56 by decide)
  | injected flag hcommand hflag => exact (show 24 < 56 by decide)
  | safeMode hcommand => exact (show 24 < 56 by decide)
  | reset hcommand => exact (show 28 < 56 by decide)
  | recovery hcommand => exact (show 55 < 56 by decide)

namespace Firmware
variable {fw : Firmware} {t : Task} {nowMs : U32}

theorem exec_prelude {op : TaskOp} (hop : op.IsPrelude) :
    (∀ op' ∈ (fw.exec t nowMs op).2.1, op'.IsPrelude) ∧
      ∀ s ∈ sentFrames (fw.exec t nowMs op).2.2, SentFrame.IsExtra s := by
  cases op with
  | send type payload =>
      rw [exec]
      split
      · exact ⟨by simp, by simp [sentFrames]⟩
      · refine ⟨by simp, fun s hs => ?_⟩
        obtain rfl := List.mem_singleton.mp hs
        exact hop
  | _ => simp_all [exec, TaskOp.IsPrelude, sentFrames]

end Firmware

/-- The next operation of a turn: it writes only for a command that is carried
out. -/
theorem Answering.exec {sent : List SentFrame} {op : TaskOp} {rest : List TaskOp}
    (h : Answering frame sent (op :: rest)) (fw : Firmware) (t : Task) (nowMs : U32) :
    Answering frame (sent ++ sentFrames (fw.exec t nowMs op).2.2)
        ((fw.exec t nowMs op).2.1 ++ rest) ∧
      (¬ frame.Accepted → (fw.exec t nowMs op).1.faults = fw.faults) := by
  generalize hops : op :: rest = ops at h
  cases h with
  | behind hextras hreply => cases hops
  | @before extras pre reply hextras hpre hrefused hreply =>
      cases pre with
      | nil =>
          obtain ⟨rfl, rfl⟩ := List.cons.inj hops
          rw [Firmware.exec, safetySendFrame_eq _ _ _ hreply.fits]
          exact ⟨.behind hextras hreply, fun _ => rfl⟩
      | cons op' pre =>
          rw [List.cons_append] at hops
          obtain ⟨rfl, hrest⟩ := List.cons.inj hops
          obtain ⟨hop, hpre⟩ := List.forall_mem_cons.mp hpre
          obtain ⟨hmore, hsent⟩ := @Firmware.exec_prelude fw t nowMs op hop
          have hacc : frame.Accepted := by
            by_contra hnot
            cases hrefused hnot
          rw [hrest, ← List.append_assoc]
          refine ⟨.before ?_ ?_ (absurd hacc) hreply, absurd hacc⟩
          · exact List.forall_mem_append.mpr ⟨hextras, hsent⟩
          · exact List.forall_mem_append.mpr ⟨hmore, hpre⟩

/-! ### A turn, step by step -/

/-- The steps so far of the turn the handler is in. -/
structure InTurn (frame : SafetyRxFrame) (steps : List StepRecord) (fw : Firmware) : Prop where
  takes : steps.filterMap StepRecord.takes = [frame]
  answering : Answering frame (steps.flatMap StepRecord.sends) (fw.ops .commandHandler)
  refused : ¬ frame.Accepted → ∀ step ∈ steps, step.behind = step.before
  budget : steps.length + fw.work .commandHandler ≤ Firmware.handlerSteps

namespace Firmware
variable {fw : Firmware} {nowMs : U32}

theorem run_of_takes_some (htakes : fw.takes .commandHandler = some frame) (nowMs : U32) :
    fw.AtHead .commandHandler ∧ ∃ rest, fw.rxMsgq = frame :: rest ∧
      fw.run .commandHandler nowMs = ({ fw with
        rxMsgq := rest
        ops := Function.update fw.ops .commandHandler (handleFrame frame) }, []) := by
  obtain ⟨-, hidle, hops, rest, hq⟩ := takes_eq_some htakes
  refine ⟨⟨hidle, hops⟩, rest, hq, ?_⟩
  simp only [run, hidle, hops, turn, hq]

theorem takes_of_not_atHead (h : ¬ fw.AtHead .commandHandler) :
    fw.takes .commandHandler = none :=
  if_neg fun hat => h hat.2

theorem waits_cases (h : fw.waits) :
    fw.AtHead .commandHandler ∧ fw.rxMsgq = [] ∨
      ∃ frame t, fw.tx .commandHandler = .locking frame ∧ fw.txMutex = some t := by
  rw [waits] at h
  split at h
  · rename_i hidle
    obtain ⟨hops, hq⟩ := Bool.and_eq_true_iff.mp h
    exact Or.inl ⟨⟨hidle, List.isEmpty_iff.mp hops⟩, List.isEmpty_iff.mp hq⟩
  · rename_i frame hat
    obtain ⟨t, howner⟩ := Option.isSome_iff_exists.mp h
    exact Or.inr ⟨frame, t, hat, howner⟩
  · cases h

theorem run_of_waits (h : fw.waits) (nowMs : U32) : (fw.run .commandHandler nowMs).1 = fw := by
  obtain ⟨⟨hidle, hops⟩, hq⟩ | ⟨frame, t, hat, howner⟩ := waits_cases h
  · have hsame : Function.update fw.ops .commandHandler [] = fw.ops := by
      rw [← hops, Function.update_eq_self]
    have hturn : fw.turn .commandHandler = (fw, []) := by
      rw [turn]
      split
      · rfl
      · rename_i hcons
        rw [hq] at hcons
        cases hcons
    simp only [run, hidle, hops, hturn, hsame]
  · have hheld : fw.txMutex ≠ none := by
      rw [howner]
      exact Option.some_ne_none t
    simp only [run, hat, if_neg hheld]

end Firmware

namespace InTurn
variable {steps : List StepRecord} {fw fw' : Firmware} {nowMs : U32}

theorem congr (h : InTurn frame steps fw) (hops : fw'.ops .commandHandler = fw.ops .commandHandler)
    (htx : fw'.tx .commandHandler = fw.tx .commandHandler) : InTurn frame steps fw' := by
  refine ⟨h.takes, hops ▸ h.answering, h.refused, ?_⟩
  rw [Firmware.work, hops, htx]
  exact h.budget

theorem first (htakes : fw.takes .commandHandler = some frame) (nowMs : U32) :
    InTurn frame [fw.recordStep nowMs] (fw.run .commandHandler nowMs).1 := by
  obtain ⟨⟨hidle, -⟩, rest, -, hrun⟩ := Firmware.run_of_takes_some htakes nowMs
  have hbudget := totalWork_handleFrame frame
  refine ⟨by simp [Firmware.recordStep, htakes], ?_, ?_, ?_⟩
  · simpa [Firmware.recordStep, hrun, sentFrames] using answering_handleFrame frame
  · simp [Firmware.recordStep, hrun]
  · simp only [Firmware.work, hrun, Function.update_self, hidle, TxPhase.work,
      List.length_singleton]
    omega

theorem next (h : InTurn frame steps fw) (hbusy : ¬ fw.AtHead .commandHandler)
    (hwaits : ¬ fw.waits) (nowMs : U32) :
    InTurn frame (steps ++ [fw.recordStep nowMs]) (fw.run .commandHandler nowMs).1 := by
  have hfree : ∀ frame, fw.tx .commandHandler = .locking frame → fw.txMutex = none := by
    intro frame hat
    simpa [Firmware.waits, hat] using hwaits
  have hwork := @Firmware.run_work fw .commandHandler nowMs hbusy hfree
  have hsent : Answering frame
      (steps.flatMap StepRecord.sends ++ sentFrames (fw.run .commandHandler nowMs).2)
      ((fw.run .commandHandler nowMs).1.ops .commandHandler) ∧
      (¬ frame.Accepted → (fw.run .commandHandler nowMs).1.faults = fw.faults) := by
    have hran := fw.run_ran .commandHandler nowMs
    generalize fw.run .commandHandler nowMs = next at hran ⊢
    cases hran with
    | sending hsending hevs =>
        have hnone : sentFrames _ = [] := List.filterMap_eq_nil_iff.mpr fun e he => by
          cases e with
          | sendFrame type payload => exact absurd he (hevs type payload)
          | pollOut b => rfl
        rw [hnone, List.append_nil]
        exact ⟨h.answering, fun _ => rfl⟩
    | turned hidle hops => exact absurd ⟨hidle, hops⟩ hbusy
    | @executed op rest hidle hops =>
        dsimp only
        rw [Function.update_self]
        exact (hops ▸ h.answering).exec fw .commandHandler nowMs
  refine ⟨?_, ?_, ?_, ?_⟩
  · simp [h.takes, Firmware.recordStep, Firmware.takes_of_not_atHead hbusy]
  · simpa [Firmware.recordStep] using hsent.1
  · intro hnot step hstep
    obtain hstep | hstep := List.mem_append.mp hstep
    · exact h.refused hnot step hstep
    · rw [List.mem_singleton.mp hstep]
      exact hsent.2 hnot
  · have hbudget := h.budget
    rw [List.length_append, List.length_singleton]
    omega

/-- Back at the head of the loop, the reply is sent. -/
theorem handling (h : InTurn frame steps fw) :
    ∃ replies ≤ 1, Handling frame steps replies ∧
      (fw.AtHead .commandHandler → replies = 1) := by
  have hsteps : steps.length ≤ Firmware.handlerSteps := Nat.le_of_add_right_le h.budget
  have hanswering := h.answering
  generalize hsent : steps.flatMap StepRecord.sends = sent,
    hops : fw.ops .commandHandler = ops at hanswering
  cases hanswering with
  | before hextras hpre hrefused hreply =>
      refine ⟨0, Nat.zero_le 1, ⟨h.takes, ⟨sent, [], ?_, hextras, by simp, rfl⟩, h.refused, hsteps⟩,
        fun hat => ?_⟩
      · rw [hsent, List.append_nil]
      · simp [hat.2] at hops
  | @behind extras reply hextras hreply =>
      exact ⟨1, Nat.le_refl 1, ⟨h.takes, ⟨extras, [reply], hsent, hextras, by simpa using hreply,
        rfl⟩, h.refused, hsteps⟩, fun _ => rfl⟩

theorem steps_lt (h : InTurn frame steps fw) (hat : ¬ fw.AtHead .commandHandler) :
    steps.length < Firmware.handlerSteps := by
  have hbudget := h.budget
  have hwork := Firmware.work_pos hat
  omega

end InTurn

/-! ### Runs -/

theorem queuedOf_append (log log' : List HandlerEvent) :
    queuedOf (log ++ log') = queuedOf log ++ queuedOf log' := List.filterMap_append

theorem stepsOf_append (log log' : List HandlerEvent) :
    stepsOf (log ++ log') = stepsOf log ++ stepsOf log' := List.filterMap_append

/-- The turns ended so far, and the turn the handler is in. -/
structure Attending (queue : List SafetyRxFrame) (log : List HandlerEvent) (fw : Firmware)
    (turns : List (SafetyRxFrame × List StepRecord))
    (current : Option (SafetyRxFrame × List StepRecord)) : Prop where
  sound : fw.TxSound
  frames : queue ++ queuedOf log = (turns ++ current.toList).map Prod.fst ++ fw.rxMsgq
  steps : stepsOf log = (turns ++ current.toList).flatMap Prod.snd
  answered : ∀ turn ∈ turns, Handling turn.1 turn.2 1
  inTurn : ∀ turn ∈ current, InTurn turn.1 turn.2 fw
  atHead : fw.AtHead .commandHandler ↔ current = none

namespace Attending
variable {queue : List SafetyRxFrame} {log : List HandlerEvent} {fw fw' : Firmware}
  {turns : List (SafetyRxFrame × List StepRecord)}
  {current : Option (SafetyRxFrame × List StepRecord)} {nowMs : U32}

theorem serving (h : Attending queue log fw turns current) :
    Serving queue log fw turns current := by
  refine ⟨h.frames, h.steps, h.answered, fun turn hturn => ?_, h.atHead, fun hwaits => ?_⟩
  · obtain ⟨replies, hle, hhandling, -⟩ := (h.inTurn turn hturn).handling
    have hat : ¬ fw.AtHead .commandHandler := by
      rw [h.atHead, Option.mem_def.mp hturn]
      exact Option.some_ne_none turn
    exact ⟨(h.inTurn turn hturn).steps_lt hat, replies, hle, hhandling⟩
  · obtain hhead | ⟨frame, t, hat, howner⟩ := Firmware.waits_cases hwaits
    · exact Or.inl hhead
    · obtain ⟨bytes, hputting⟩ := h.sound.held t howner
      refine Or.inr ⟨t, bytes, fun ht => ?_, howner, hputting⟩
      rw [ht, hat] at hputting
      cases hputting

/-- A step that is not one of the handler's, or in which it waits. -/
theorem bystand (h : Attending queue log fw turns current) (hsound : fw'.TxSound)
    (hops : fw'.ops .commandHandler = fw.ops .commandHandler)
    (htx : fw'.tx .commandHandler = fw.tx .commandHandler) {new : List SafetyRxFrame}
    (hq : fw'.rxMsgq = fw.rxMsgq ++ new) :
    Attending queue (log ++ new.map .queued) fw' turns current := by
  have hnew : queuedOf (new.map .queued) = new ∧ stepsOf (new.map .queued) = [] := by
    simp [queuedOf, stepsOf, List.filterMap_map]
  refine ⟨hsound, ?_, ?_, h.answered, fun turn hturn => (h.inTurn turn hturn).congr hops htx, ?_⟩
  · rw [queuedOf_append, hnew.1, hq, ← List.append_assoc, h.frames, List.append_assoc]
  · rw [stepsOf_append, hnew.2, List.append_nil, h.steps]
  · rw [Firmware.AtHead, hops, htx]
    exact h.atHead

/-- The handler takes the next frame of the queue. -/
theorem take (h : Attending queue log fw turns current)
    (htakes : fw.takes .commandHandler = some frame) (nowMs : U32) :
    Attending queue (log ++ [.stepped (fw.recordStep nowMs)])
      (fw.run .commandHandler nowMs).1 turns (some (frame, [fw.recordStep nowMs])) := by
  obtain ⟨hat, rest, hq, hrun⟩ := Firmware.run_of_takes_some htakes nowMs
  obtain rfl := h.atHead.mp hat
  have hframes := h.frames
  have hsteps := h.steps
  refine ⟨(h.sound.run .commandHandler nowMs).1, ?_, ?_, h.answered, ?_, ?_⟩
  · rw [queuedOf_append, ← List.append_assoc, hframes, hrun, hq]
    simp [queuedOf]
  · rw [stepsOf_append, hsteps]
    simp [stepsOf]
  · intro turn hturn
    obtain rfl := Option.some.inj hturn
    exact .first htakes nowMs
  · refine iff_of_false (fun hhead => ?_) (Option.some_ne_none _)
    obtain ⟨-, hops⟩ := hhead
    rw [hrun] at hops
    dsimp only at hops
    rw [Function.update_self] at hops
    exact handleFrame_ne_nil frame hops

/-- The handler goes on with its turn, and ends it where it gets back to the
head of its loop. -/
theorem goOn {turn : SafetyRxFrame × List StepRecord}
    (h : Attending queue log fw turns (some turn)) (hwaits : ¬ fw.waits) (nowMs : U32) :
    ∃ turns' current', Attending queue (log ++ [.stepped (fw.recordStep nowMs)])
      (fw.run .commandHandler nowMs).1 turns' current' := by
  obtain ⟨frame, steps⟩ := turn
  have hbusy : ¬ fw.AtHead .commandHandler := by
    rw [h.atHead]
    exact Option.some_ne_none _
  have hsound := (h.sound.run .commandHandler nowMs).1
  have hnext := (h.inTurn (frame, steps) rfl).next hbusy hwaits nowMs
  have hframes : ∀ {all : List (SafetyRxFrame × List StepRecord)},
      all = turns ++ [(frame, steps ++ [fw.recordStep nowMs])] →
      queue ++ queuedOf (log ++ [.stepped (fw.recordStep nowMs)]) =
        all.map Prod.fst ++ (fw.run .commandHandler nowMs).1.rxMsgq ∧
      stepsOf (log ++ [.stepped (fw.recordStep nowMs)]) = all.flatMap Prod.snd := by
    rintro all rfl
    rw [queuedOf_append, stepsOf_append, ← List.append_assoc, h.frames, h.steps,
      Firmware.run_rxMsgq (Firmware.takes_of_not_atHead hbusy)]
    simp [queuedOf, stepsOf]
  by_cases hat : (fw.run .commandHandler nowMs).1.AtHead .commandHandler
  · obtain ⟨replies, -, hhandling, hone⟩ := hnext.handling
    obtain rfl := hone hat
    obtain ⟨hf, hs⟩ := hframes (List.append_nil _)
    refine ⟨turns ++ [(frame, steps ++ [fw.recordStep nowMs])], none, hsound, hf, hs, ?_, by simp,
      iff_of_true hat rfl⟩
    exact List.forall_mem_append.mpr ⟨h.answered, List.forall_mem_singleton.mpr hhandling⟩
  · obtain ⟨hf, hs⟩ := hframes rfl
    refine ⟨turns, some (frame, steps ++ [fw.recordStep nowMs]), hsound, hf, hs, h.answered, ?_,
      iff_of_false hat (Option.some_ne_none _)⟩
    intro turn hturn
    obtain rfl := Option.some.inj hturn
    exact hnext

end Attending

theorem foldl_msgqPut (q frames : List SafetyRxFrame) :
    ∃ new, frames.foldl Firmware.msgqPut q = q ++ new := by
  induction frames generalizing q with
  | nil => exact ⟨[], (List.append_nil q).symm⟩
  | cons frame frames ih =>
      obtain ⟨new, hnew⟩ := ih (Firmware.msgqPut q frame)
      rw [List.foldl_cons, hnew, Firmware.msgqPut]
      split
      · exact ⟨frame :: new, List.append_assoc ..⟩
      · exact ⟨new, rfl⟩

namespace Attending
variable {queue : List SafetyRxFrame} {log : List HandlerEvent} {fw : Firmware}
  {turns : List (SafetyRxFrame × List StepRecord)}
  {current : Option (SafetyRxFrame × List StepRecord)}

theorem watch (h : Attending queue log fw turns current) (a : FirmwareInput) :
    ∃ turns' current', Attending queue (log ++ (fw.watch a).2) (fw.watch a).1 turns' current' := by
  cases a with
  | receive bytes =>
      obtain ⟨new, hnew⟩ : ∃ new, (fw.receive bytes).rxMsgq = fw.rxMsgq ++ new :=
        foldl_msgqPut ..
      have hlog : (fw.watch (.receive bytes)).2 = new.map .queued := by
        rw [Firmware.watch, hnew, List.drop_left]
      have hsound : (fw.receive bytes).TxSound := h.sound.congr rfl rfl
      refine ⟨turns, current, ?_⟩
      rw [hlog]
      exact h.bystand hsound rfl rfl hnew
  | task t nowMs =>
      have hsound := (h.sound.run t nowMs).1
      by_cases ht : t = .commandHandler
      · subst ht
        by_cases hwaits : fw.waits
        · refine ⟨turns, current, ?_⟩
          have hlog : (fw.watch (.task .commandHandler nowMs)).2 = [] := if_pos hwaits
          have hstep : (fw.watch (.task .commandHandler nowMs)).1 = fw :=
            Firmware.run_of_waits hwaits nowMs
          rw [hlog, hstep, List.append_nil]
          exact h
        · have hlog : (fw.watch (.task .commandHandler nowMs)).2 =
              [.stepped (fw.recordStep nowMs)] := if_neg hwaits
          rw [hlog]
          cases current with
          | none =>
              obtain ⟨hidle, hops⟩ := h.atHead.mpr rfl
              cases hq : fw.rxMsgq with
              | nil => simp [Firmware.waits, hidle, hops, hq] at hwaits
              | cons frame rest =>
                  have htakes : fw.takes .commandHandler = some frame := by
                    rw [Firmware.takes_at_head hidle hops, hq, List.head?_cons]
                  exact ⟨turns, _, h.take htakes nowMs⟩
          | some turn => exact h.goOn hwaits nowMs
      · refine ⟨turns, current, ?_⟩
        have hlog : (fw.watch (.task t nowMs)).2 = ([] : List SafetyRxFrame).map .queued := by
          cases t with
          | commandHandler => exact absurd rfl ht
          | _ => rfl
        have hq : (fw.run t nowMs).1.rxMsgq = fw.rxMsgq :=
          Firmware.run_rxMsgq (Firmware.takes_of_ne ht) nowMs
        rw [hlog]
        exact h.bystand hsound (Firmware.run_ops_of_ne (Ne.symm ht))
          (Firmware.run_tx_of_ne (Ne.symm ht)) (hq.trans (List.append_nil _).symm)

end Attending

/-- In every run, from any state in which the handler is at the head of its
loop, with any frames in the queue. -/
theorem Firmware.every_frame_answered (fw : Firmware) (hsound : fw.TxSound)
    (hat : fw.AtHead .commandHandler) (inputs : List FirmwareInput) :
    ∃ turns current, Serving fw.rxMsgq (Machine.outputs watch fw inputs)
      (Machine.after watch fw inputs) turns current := by
  have hinit : Attending fw.rxMsgq [] fw [] none :=
    ⟨hsound, List.append_nil _, rfl, by simp, by simp, iff_of_true hat rfl⟩
  obtain ⟨turns, current, h⟩ := Machine.run_history
    (P := fun _ log fw' => ∃ turns current, Attending fw.rxMsgq log fw' turns current)
    (fun _ _ _ a ⟨_, _, h⟩ => h.watch a) ⟨[], none, hinit⟩ inputs
  exact ⟨turns, current, h.serving⟩

/-- `INJECT_FAULT` of an unknown fault, then `GET_STATUS`. -/
def twoCommands : Firmware where
  rxMsgq :=
    [⟨safetyFrameInit safetyFrameCommand 7 8 0, [safetyCmdInjectFault, 9, 0, 0, 0, 0, 0, 0]⟩,
     ⟨safetyFrameInit safetyFrameCommand 8 8 0, [safetyCmdGetStatus, 0, 0, 0, 0, 0, 0, 0]⟩]

def handlerAlone : List FirmwareInput := List.replicate 76 (.task .commandHandler 0)

theorem Firmware.every_frame_answered_two :
    ∃ turns : List (SafetyRxFrame × List StepRecord),
      turns.map Prod.fst = twoCommands.rxMsgq ∧ ∀ turn ∈ turns, Handling turn.1 turn.2 1 := by
  have hsound : twoCommands.TxSound := txSound_init.congr rfl rfl
  have hend : (Machine.after watch twoCommands handlerAlone).AtHead .commandHandler ∧
      (Machine.after watch twoCommands handlerAlone).rxMsgq = [] ∧
      queuedOf (Machine.outputs watch twoCommands handlerAlone) = [] := by
    decide +kernel
  obtain ⟨turns, current, h⟩ :=
    every_frame_answered twoCommands hsound ⟨rfl, rfl⟩ handlerAlone
  obtain rfl := h.atHead.mp hend.1
  have hframes := h.frames
  rw [hend.2.1, hend.2.2] at hframes
  exact ⟨turns, by simpa using hframes.symm, h.answered⟩

end SafetyCopro
