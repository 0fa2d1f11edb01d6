import SafetyCopro.Supervisor.HealthStateMachine
import SafetyCopro.Supervisor.RecoveryWorker

/-!
The live event loop, `event_loop.cpp`, as a machine. Its inputs are what epoll
hands it: a parsed frame, an expiry of the heartbeat timer, a report of the
recovery worker. Its outputs are the calls it makes on the other components,
in program order.
-/

namespace SafetyCopro

inductive Effect
  | log (e : LogEvent)
  -- a call of `fsm_.apply`; the hook logs it when it is valid
  | applied (r : TransitionResult)
  | armHeartbeatTimer
  | sendOut (frame : List U8)
  | requestRecovery (seq : U16) (nowMs : I64)
  | notifyHeartbeatRestored (nowMs : I64)
deriving DecidableEq

/-- The line the hook of `main.cpp` writes. -/
def stateChangeEvent (r : TransitionResult) : LogEvent where
  kind := .stateChange
  fromState := stateName r.fromState
  toState := stateName r.toState
  detail := eventName r.event

namespace Effect

def logged : Effect → Option LogEvent
  | .log e => some e
  | .applied r => if r.valid then some (stateChangeEvent r) else none
  | _ => none

def call : Effect → Option TransitionResult
  | .applied r => some r
  | _ => none

end Effect

def logOf (effs : List Effect) : List LogEvent := effs.filterMap Effect.logged
def callsOf (effs : List Effect) : List TransitionResult := effs.filterMap Effect.call

def transitionsOf (effs : List Effect) : List TransitionResult :=
  (callsOf effs).filter TransitionResult.valid

theorem logOf_append (effs effs' : List Effect) :
    logOf (effs ++ effs') = logOf effs ++ logOf effs' := List.filterMap_append

theorem transitionsOf_append (effs effs' : List Effect) :
    transitionsOf (effs ++ effs') = transitionsOf effs ++ transitionsOf effs' := by
  rw [transitionsOf, callsOf, List.filterMap_append, List.filter_append]
  rfl

theorem mem_logOf {effs : List Effect} {e : LogEvent} (h : e ∈ logOf effs) :
    .log e ∈ effs ∨ ∃ r, .applied r ∈ effs ∧ r.valid = true ∧ e = stateChangeEvent r := by
  obtain ⟨eff, heff, hlogged⟩ := List.mem_filterMap.mp h
  cases eff with
  | log e' =>
      obtain rfl : e' = e := Option.some.inj hlogged
      exact Or.inl heff
  | applied r =>
      rw [Effect.logged] at hlogged
      split at hlogged
      · rename_i hvalid
        obtain rfl := Option.some.inj hlogged
        exact Or.inr ⟨r, heff, hvalid, rfl⟩
      · cases hlogged
  | _ => cases hlogged

theorem mem_callsOf {effs : List Effect} {r : TransitionResult} :
    r ∈ callsOf effs ↔ .applied r ∈ effs := by
  rw [callsOf, List.mem_filterMap]
  refine ⟨fun ⟨eff, heff, hcall⟩ => ?_, fun h => ⟨_, h, rfl⟩⟩
  cases eff with
  | applied r' =>
      obtain rfl : r' = r := Option.some.inj hcall
      exact heff
  | _ => cases hcall

theorem mem_transitionsOf {effs : List Effect} {r : TransitionResult} :
    r ∈ transitionsOf effs ↔ .applied r ∈ effs ∧ r.valid = true := by
  rw [transitionsOf, List.mem_filter, mem_callsOf]

/-- A run that makes no transition on an event never breaks a guard whose
breach makes one. -/
theorem along_of_transitions {σ α : Type} {step : σ → α → σ × List Effect}
    {B : σ → α → Prop} {event : HealthEvent}
    (hstep : ∀ s a, B s a → ∃ r ∈ transitionsOf (step s a).2, r.event = event)
    {s : σ} {as : List α}
    (h : ∀ r ∈ transitionsOf (Machine.outputs step s as), r.event ≠ event) :
    Machine.Along step (fun s a => ¬ B s a) s as := by
  refine Machine.along_of_outputs
    (P := fun eff => ∀ r, eff = .applied r → r.valid = true → r.event ≠ event)
    (fun s a hout hbad => ?_)
    (fun eff heff r hr hvalid => h r (mem_transitionsOf.mpr ⟨hr ▸ heff, hvalid⟩))
  obtain ⟨r, hr, hevent⟩ := hstep s a hbad
  obtain ⟨happlied, hvalid⟩ := mem_transitionsOf.mp hr
  exact hout _ happlied r rfl hvalid hevent

structure EventLoop where
  fsm : HealthState := .booting
  dup : DuplicateDetector := {}
  txSeq : U16 := 0
deriving DecidableEq

namespace EventLoop

def heartbeatEvent (s : HealthState) : HealthEvent :=
  if s = .recovering then .heartbeatRestored else .heartbeatOk

/-- The body of `process_frames` for a frame that failed validation. -/
def rejectFrame (el : EventLoop) (f : ParsedFrame) : EventLoop × List Effect :=
  ({ el with txSeq := el.txSeq + 1 },
    [.log
      { tsMs := f.ts, kind := .checksumError, frameType := frameTypeName f.type
        seq := f.seqInt
        detail := Text.lit "validate_result=" ++ Text.decimal f.validateResult.code },
     .sendOut (buildNack el.txSeq f.tsMs f.seq safetyNackChecksum),
     .log { tsMs := f.ts, kind := .txNack, frameType := Text.lit "NACK", seq := f.seqInt }])

def duplicateEvent (f : ParsedFrame) : LogEvent :=
  { tsMs := f.ts, kind := .duplicate, frameType := frameTypeName f.type, seq := f.seqInt }

def rxFrameEvent (f : ParsedFrame) : LogEvent :=
  { tsMs := f.ts, kind := .rxFrame, frameType := frameTypeName f.type, seq := f.seqInt }

def txAckEvent (f : ParsedFrame) : LogEvent :=
  { tsMs := f.ts, kind := .txAck, frameType := Text.lit "ACK", seq := f.seqInt }

def onHeartbeat (el : EventLoop) (f : ParsedFrame) : EventLoop × List Effect :=
  let before := el.fsm
  let r := before.apply (heartbeatEvent before)
  ({ el with fsm := r.toState, txSeq := el.txSeq + 1 },
    [.armHeartbeatTimer, .applied r] ++
    (if before = .recovering then [.notifyHeartbeatRestored f.ts] else []) ++
    [.sendOut (buildAck el.txSeq f.tsMs f.seq), .log (txAckEvent f)])

/-- A `FAULT_EVENT` past the duplicate check. A fault that is not critical
counts as a timeout, but only while the machine is `HEALTHY`. -/
def onFaultEvent (el : EventLoop) (f : ParsedFrame) : EventLoop × List Effect :=
  if 2 ≤ f.severity then
    let r := el.fsm.apply .criticalFault
    ({ el with fsm := r.toState }, [.applied r])
  else if el.fsm = .healthy then
    let r := el.fsm.apply .heartbeatTimeout
    ({ el with fsm := r.toState }, [.applied r])
  else (el, [])

def dispatch (el : EventLoop) (f : ParsedFrame) : EventLoop × List Effect :=
  if f.type = safetyFrameHeartbeat then el.onHeartbeat f
  else if f.type = safetyFrameFaultEvent then el.onFaultEvent f
  else (el, [])

/-- One turn of the loop of `process_frames`. -/
def processFrame (el : EventLoop) (f : ParsedFrame) : EventLoop × List Effect :=
  if ¬ f.ok then el.rejectFrame f
  else if (el.dup.isDuplicate f.type f.seq).1 then (el, [.log (duplicateEvent f)])
  else
    let (el, effs) := { el with dup := (el.dup.isDuplicate f.type f.seq).2 }.dispatch f
    (el, .log (rxFrameEvent f) :: effs)

/-- `handle_readable` on the bytes of one `read`; `buf` is what the assembler
keeps between two reads. -/
def handleReadable (buf : List U8) (el : EventLoop) (data : List U8) :
    List U8 × EventLoop × List Effect :=
  let (frames, buf) := FrameAssembler.feed buf data
  (buf, Machine.after processFrame el frames, Machine.outputs processFrame el frames)

def onHeartbeatTimeout (el : EventLoop) (nowMs : I64) : EventLoop × List Effect :=
  let before := el.fsm
  let r := before.apply .heartbeatTimeout
  let request := r.valid ∧ before = .healthy
  ({ el with fsm := r.toState, txSeq := if request then el.txSeq + 1 else el.txSeq },
    [.log
      { tsMs := nowMs, kind := .timeout
        detail := Text.lit "heartbeat timeout (backup timer)" },
     .applied r] ++
    (if request then [.requestRecovery el.txSeq nowMs] else []) ++ [.armHeartbeatTimer])

def recoveryResultEvent (rep : RecoveryReport U16) (result : Text) : LogEvent :=
  { tsMs := rep.tsMs, kind := .recoveryResult, seq := rep.seq.setWidth 32, detail := result }

def requestRecoveryEvent (rep : RecoveryReport U16) : LogEvent :=
  { tsMs := rep.tsMs, kind := .txCommand, frameType := Text.lit "COMMAND"
    seq := rep.seq.setWidth 32, detail := Text.lit "REQUEST_RECOVERY" }

/-- One turn of the loop of `drain_recovery_reports`. -/
def drainReport (el : EventLoop) (rep : RecoveryReport U16) : EventLoop × List Effect :=
  match rep.outcome with
  | .sent =>
      let r := el.fsm.apply .recoverySent
      ({ el with fsm := r.toState },
        [.log (requestRecoveryEvent rep), .applied r,
         .log (recoveryResultEvent rep (Text.lit "RECOVERY_SENT"))])
  | .success => (el, [.log (recoveryResultEvent rep (Text.lit "RECOVERY_SUCCESS"))])
  | .failed =>
      let r := el.fsm.apply .recoveryFailed
      ({ el with fsm := r.toState },
        [.applied r, .log (recoveryResultEvent rep (Text.lit "RECOVERY_FAILED"))])

def drainRecoveryReports (el : EventLoop) (reps : List (RecoveryReport U16)) :
    EventLoop × List Effect :=
  (Machine.after drainReport el reps, Machine.outputs drainReport el reps)

end EventLoop

inductive LiveInput
  | frame (f : ParsedFrame)
  | heartbeatTimeout (nowMs : I64)
  | report (rep : RecoveryReport U16)
deriving DecidableEq

def EventLoop.step (el : EventLoop) : LiveInput → EventLoop × List Effect
  | .frame f => el.processFrame f
  | .heartbeatTimeout nowMs => el.onHeartbeatTimeout nowMs
  | .report rep => el.drainReport rep

/-! ### What a frame does -/

def ParsedFrame.key (f : ParsedFrame) : U8 × U16 := (f.type, f.seq)

/-- A frame is corrupt, a duplicate, or new. -/
theorem DuplicateDetector.frame_cases (d : DuplicateDetector) (f : ParsedFrame) :
    ¬ f.ok ∨ (f.ok ∧ f.key ∈ d.seen) ∨ (f.ok ∧ f.key ∉ d.seen) := by
  by_cases hok : f.ok
  · by_cases hseen : f.key ∈ d.seen
    · exact Or.inr (Or.inl ⟨hok, hseen⟩)
    · exact Or.inr (Or.inr ⟨hok, hseen⟩)
  · exact Or.inl hok

/-- The event a frame drives the machine with, once it is accepted. -/
def frameEvent (s : HealthState) (f : ParsedFrame) : Option HealthEvent :=
  if f.type = safetyFrameHeartbeat then some (EventLoop.heartbeatEvent s)
  else if f.type = safetyFrameFaultEvent then
    if 2 ≤ f.severity then some .criticalFault
    else if s = .healthy then some .heartbeatTimeout
    else none
  else none

namespace EventLoop

/-- The frame validates and its key is new. -/
def Accepts (el : EventLoop) (f : ParsedFrame) : Prop := f.ok ∧ f.key ∉ el.dup.seen

instance (el : EventLoop) (f : ParsedFrame) : Decidable (el.Accepts f) :=
  inferInstanceAs (Decidable (_ ∧ _))

def record (el : EventLoop) (f : ParsedFrame) : EventLoop :=
  { el with dup := ⟨f.key :: el.dup.seen⟩ }

theorem processFrame_of_not_ok {el : EventLoop} {f : ParsedFrame} (h : ¬ f.ok) :
    el.processFrame f = el.rejectFrame f := by
  rw [processFrame, if_pos h]

theorem processFrame_of_seen {el : EventLoop} {f : ParsedFrame} (hok : f.ok)
    (h : f.key ∈ el.dup.seen) : el.processFrame f = (el, [.log (duplicateEvent f)]) := by
  have hdup := (el.dup.isDuplicate_fst f.type f.seq).mpr h
  rw [processFrame, if_neg (not_not_intro hok), if_pos hdup]

theorem processFrame_of_accepts {el : EventLoop} {f : ParsedFrame} (h : el.Accepts f) :
    el.processFrame f =
      (((el.record f).dispatch f).1,
        .log (rxFrameEvent f) :: ((el.record f).dispatch f).2) := by
  have hdup : el.dup.isDuplicate f.type f.seq = (false, ⟨f.key :: el.dup.seen⟩) :=
    if_neg h.2
  rw [processFrame, if_neg (not_not_intro h.1), hdup]
  rfl

theorem handleReadable_packFrame (el : EventLoop) (type : U8) (seq : U16) (tsMs : U32)
    {payload : List U8} (h : payload.length ≤ safetyMaxPayload) :
    handleReadable [] el (packFrame type seq tsMs payload) =
      ([], el.processFrame (.packed type seq tsMs payload)) := by
  simp only [handleReadable, feed_packFrame type seq tsMs h, Machine.after_cons,
    Machine.after_nil, Machine.outputs_cons, Machine.outputs_nil, List.append_nil]

@[simp] theorem dispatch_dup (el : EventLoop) (f : ParsedFrame) :
    (el.dispatch f).1.dup = el.dup := by
  unfold dispatch onFaultEvent
  split
  · rfl
  split
  · split
    · rfl
    split <;> rfl
  · rfl

theorem dispatch_fsm (el : EventLoop) (f : ParsedFrame) :
    (el.dispatch f).1.fsm = (frameEvent el.fsm f).elim el.fsm el.fsm.target := by
  unfold dispatch frameEvent onFaultEvent
  split
  · rfl
  split
  · split
    · rfl
    split <;> rfl
  · rfl

theorem callsOf_dispatch (el : EventLoop) (f : ParsedFrame) :
    callsOf (el.dispatch f).2 = (frameEvent el.fsm f).toList.map el.fsm.apply := by
  unfold dispatch frameEvent onFaultEvent onHeartbeat
  split
  · dsimp only
    split <;> rfl
  split
  · split
    · rfl
    split <;> rfl
  · rfl

theorem log_mem_dispatch {el : EventLoop} {f : ParsedFrame} {e : LogEvent}
    (h : .log e ∈ (el.dispatch f).2) : e = txAckEvent f := by
  unfold dispatch onFaultEvent onHeartbeat at h
  repeat' split at h
  all_goals simp_all

theorem mem_logOf_dispatch {el : EventLoop} {f : ParsedFrame} {e : LogEvent}
    (h : e ∈ logOf (el.dispatch f).2) : e = txAckEvent f ∨ e.kind = .stateChange := by
  obtain h | ⟨r, -, -, rfl⟩ := mem_logOf h
  · exact Or.inl (log_mem_dispatch h)
  · exact Or.inr rfl

theorem duplicate_logged_iff {el : EventLoop} {f : ParsedFrame} (hok : f.ok) :
    (∃ e ∈ logOf (el.processFrame f).2, e.kind = .duplicate) ↔ f.key ∈ el.dup.seen := by
  by_cases hseen : f.key ∈ el.dup.seen
  · rw [processFrame_of_seen hok hseen]
    exact iff_of_true ⟨duplicateEvent f, List.mem_singleton.mpr rfl, rfl⟩ hseen
  · rw [processFrame_of_accepts ⟨hok, hseen⟩]
    refine iff_of_false ?_ hseen
    rintro ⟨e, he, hkind⟩
    obtain rfl | he := List.mem_cons.mp he
    · cases hkind
    · obtain rfl | hchange := mem_logOf_dispatch he
      · cases hkind
      · rw [hkind] at hchange
        cases hchange

/-! ### What a step does -/

def stepEvent (el : EventLoop) : LiveInput → Option HealthEvent
  | .frame f => if el.Accepts f then frameEvent el.fsm f else none
  | .heartbeatTimeout _ => some .heartbeatTimeout
  | .report rep =>
      match rep.outcome with
      | .sent => some .recoverySent
      | .success => none
      | .failed => some .recoveryFailed

/-- A frame is corrupt, a duplicate, or accepted. -/
theorem frame_cases (el : EventLoop) (f : ParsedFrame) :
    ¬ f.ok ∨ (f.ok ∧ f.key ∈ el.dup.seen) ∨ el.Accepts f := el.dup.frame_cases f

theorem step_fsm (el : EventLoop) (i : LiveInput) :
    (el.step i).1.fsm = (el.stepEvent i).elim el.fsm el.fsm.target := by
  cases i with
  | frame f =>
      obtain hok | ⟨hok, hseen⟩ | hacc := el.frame_cases f
      · rw [step, processFrame_of_not_ok hok, stepEvent, if_neg fun h => hok h.1]
        rfl
      · rw [step, processFrame_of_seen hok hseen, stepEvent, if_neg fun h => h.2 hseen]
        rfl
      · rw [step, processFrame_of_accepts hacc, stepEvent, if_pos hacc]
        exact dispatch_fsm _ f
  | heartbeatTimeout nowMs => rfl
  | report rep => cases h : rep.outcome <;> simp only [step, drainReport, stepEvent, h] <;> rfl

/-- A step calls `apply` at most once, from the state it finds. -/
theorem callsOf_step (el : EventLoop) (i : LiveInput) :
    callsOf (el.step i).2 = (el.stepEvent i).toList.map el.fsm.apply := by
  cases i with
  | frame f =>
      obtain hok | ⟨hok, hseen⟩ | hacc := el.frame_cases f
      · rw [step, processFrame_of_not_ok hok, stepEvent, if_neg fun h => hok h.1]
        rfl
      · rw [step, processFrame_of_seen hok hseen, stepEvent, if_neg fun h => h.2 hseen]
        rfl
      · rw [step, processFrame_of_accepts hacc, stepEvent, if_pos hacc]
        exact callsOf_dispatch _ f
  | heartbeatTimeout nowMs =>
      simp only [step, onHeartbeatTimeout, stepEvent]
      split <;> rfl
  | report rep => cases h : rep.outcome <;> simp only [step, drainReport, stepEvent, h] <;> rfl

theorem mem_processFrame_seen (el : EventLoop) (f : ParsedFrame) (k : U8 × U16) :
    k ∈ (el.processFrame f).1.dup.seen ↔ k ∈ el.dup.seen ∨ f.ok ∧ k = f.key := by
  obtain hok | ⟨hok, hseen⟩ | hacc := el.frame_cases f
  · simp [processFrame_of_not_ok hok, rejectFrame, hok]
  · rw [processFrame_of_seen hok hseen]
    refine ⟨Or.inl, fun h => h.elim id fun h => ?_⟩
    rw [h.2]
    exact hseen
  · rw [processFrame_of_accepts hacc]
    simp only [dispatch_dup, record, List.mem_cons, hacc.1, true_and]
    exact or_comm

@[simp] theorem onHeartbeatTimeout_dup (el : EventLoop) (nowMs : I64) :
    (el.onHeartbeatTimeout nowMs).1.dup = el.dup := rfl

@[simp] theorem drainReport_dup (el : EventLoop) (rep : RecoveryReport U16) :
    (el.drainReport rep).1.dup = el.dup := by
  cases h : rep.outcome <;> simp [drainReport, h]

theorem mem_step_seen (el : EventLoop) (i : LiveInput) (k : U8 × U16) :
    k ∈ (el.step i).1.dup.seen ↔
      k ∈ el.dup.seen ∨ ∃ f, i = .frame f ∧ f.ok ∧ k = f.key := by
  cases i with
  | frame f => simp [step, mem_processFrame_seen]
  | heartbeatTimeout nowMs => simp [step]
  | report rep => simp [step]

end EventLoop

end SafetyCopro
