import SafetyCopro.Supervisor.LiveRun
import SafetyCopro.Supervisor.LogLines

/-!
Replaying the log of a live run. The reader sees log lines only, so it follows
the event loop as long as everything that moves the machine leaves a line that
moves it. A failed recovery does not.
-/

namespace SafetyCopro

def LiveInput.IsFaultEvent : LiveInput → Prop
  | .frame f => f.ok ∧ f.type = safetyFrameFaultEvent
  | _ => False

instance : (i : LiveInput) → Decidable i.IsFaultEvent
  | .frame _ => inferInstanceAs (Decidable (_ ∧ _))
  | .heartbeatTimeout _ => .isFalse id
  | .report _ => .isFalse id

namespace EventLoop

theorem transitionsOf_step (el : EventLoop) (i : LiveInput) :
    transitionsOf (el.step i).2 =
      ((el.stepEvent i).toList.map el.fsm.apply).filter TransitionResult.valid := by
  rw [transitionsOf, callsOf_step]

/-- A recovery that failed moves the machine, and no line says so. -/
def Unlogged (el : EventLoop) : LiveInput → Prop
  | .report rep => rep.outcome = .failed ∧ (el.fsm = .degraded ∨ el.fsm = .recovering)
  | _ => False

instance (el : EventLoop) : (i : LiveInput) → Decidable (el.Unlogged i)
  | .frame _ => .isFalse id
  | .heartbeatTimeout _ => .isFalse id
  | .report _ => inferInstanceAs (Decidable (_ ∧ (_ ∨ _)))

theorem quiet_dispatch (el : EventLoop) (f : ParsedFrame) :
    ∀ e ∈ logOf (el.dispatch f).2, e.Quiet := by
  intro e he
  obtain rfl | hkind := mem_logOf_dispatch he
  · exact ⟨nofun, nofun, nofun⟩
  · simp [LogEvent.Quiet, hkind]

theorem frameEvent_of_ne_faultEvent {f : ParsedFrame} (h : f.type ≠ safetyFrameFaultEvent)
    (s : HealthState) :
    frameEvent s f = if f.type = safetyFrameHeartbeat then some (heartbeatEvent s) else none := by
  rw [frameEvent, if_neg h]

/-- The reader of a step's log makes the step's transition. -/
def ReplaysStep (el : EventLoop) (i : LiveInput) : Prop :=
  Machine.after HealthState.replay el.fsm (logOf (el.step i).2) = (el.step i).1.fsm ∧
    Machine.outputs HealthState.replay el.fsm (logOf (el.step i).2) = transitionsOf (el.step i).2

theorem replays_frame (el : EventLoop) {f : ParsedFrame}
    (hfault : ¬ (f.ok ∧ f.type = safetyFrameFaultEvent)) : el.ReplaysStep (.frame f) := by
  rw [ReplaysStep, step_fsm, transitionsOf_step]
  obtain hok | ⟨hok, hseen⟩ | hacc := el.frame_cases f
  · rw [step, processFrame_of_not_ok hok, stepEvent, if_neg fun h => hok h.1]
    exact replay_quiet (quiet_logOf _ (by simp [rejectFrame, Effect.Quiet, LogEvent.Quiet])) _
  · rw [step, processFrame_of_seen hok hseen, stepEvent, if_neg fun h => h.2 hseen]
    exact replay_quiet (quiet_logOf _
      (by simp [duplicateEvent, Effect.Quiet, LogEvent.Quiet])) _
  · have hdrives := drives_rxFrame (e := rxFrameEvent f) f.type rfl rfl rfl el.fsm
    have hreplay := replay_cons_quiet (quiet_dispatch (el.record f) f) (rxFrameEvent f) el.fsm
    rw [step, processFrame_of_accepts hacc, stepEvent, if_pos hacc,
      frameEvent_of_ne_faultEvent fun h => hfault ⟨hacc.1, h⟩, ← hdrives]
    exact hreplay

theorem replays_heartbeatTimeout (el : EventLoop) (nowMs : I64) :
    el.ReplaysStep (.heartbeatTimeout nowMs) := by
  rw [ReplaysStep, step_fsm, transitionsOf_step]
  refine replay_cons_quiet (quiet_logOf (el.onHeartbeatTimeout nowMs).2.tail ?_)
    { tsMs := nowMs, kind := .timeout
      detail := Text.lit "heartbeat timeout (backup timer)" } el.fsm
  intro eff heff
  simp only [onHeartbeatTimeout, List.cons_append, List.tail_cons, List.nil_append,
    List.mem_cons, List.mem_append, List.mem_ite_nil_right, List.not_mem_nil, or_false] at heff
  obtain rfl | ⟨-, rfl⟩ | rfl := heff <;> trivial

theorem replays_report {el : EventLoop} {rep : RecoveryReport U16}
    (hlogged : ¬ el.Unlogged (.report rep)) : el.ReplaysStep (.report rep) := by
  rw [ReplaysStep, step_fsm, transitionsOf_step]
  obtain ⟨outcome, seq, ts⟩ := rep
  cases outcome with
  | sent =>
      have hdrives : (requestRecoveryEvent ⟨.sent, seq, ts⟩).drives el.fsm =
          some .recoverySent := rfl
      have hreplay := replay_cons_quiet (quiet_logOf
        (el.drainReport ⟨.sent, seq, ts⟩).2.tail
        (by simp [drainReport, recoveryResultEvent, Effect.Quiet, LogEvent.Quiet]))
        (requestRecoveryEvent ⟨.sent, seq, ts⟩) el.fsm
      rw [HealthState.replay, hdrives] at hreplay
      exact hreplay
  | success =>
      exact replay_quiet (quiet_logOf _
        (by simp [step, drainReport, recoveryResultEvent, Effect.Quiet, LogEvent.Quiet])) _
  | failed =>
      have hstay : el.fsm.target .recoveryFailed = el.fsm := by
        cases hfsm : el.fsm with
        | degraded => exact absurd ⟨rfl, Or.inl hfsm⟩ hlogged
        | recovering => exact absurd ⟨rfl, Or.inr hfsm⟩ hlogged
        | _ => rfl
      have hreplay := replay_quiet (quiet_logOf
        (el.drainReport ⟨.failed, seq, ts⟩).2
        (by simp [drainReport, recoveryResultEvent, Effect.Quiet, LogEvent.Quiet])) el.fsm
      have hinvalid : (el.fsm.apply .recoveryFailed).valid = false := by
        simp [HealthState.apply, hstay]
      simpa [step, stepEvent, hstay, hinvalid] using hreplay

theorem replay_step {el : EventLoop} {i : LiveInput} (hfault : ¬ i.IsFaultEvent)
    (hlogged : ¬ el.Unlogged i) : el.ReplaysStep i := by
  cases i with
  | frame f => exact el.replays_frame hfault
  | heartbeatTimeout nowMs => exact el.replays_heartbeatTimeout nowMs
  | report rep => exact replays_report hlogged

theorem replay_run {el : EventLoop} {ins : List LiveInput}
    (hfault : ∀ i ∈ ins, ¬ i.IsFaultEvent)
    (hlogged : Machine.Along step (fun el i => ¬ el.Unlogged i) el ins) :
    Machine.after HealthState.replay el.fsm (logOf (Machine.outputs step el ins)) =
        (Machine.after step el ins).fsm ∧
      Machine.outputs HealthState.replay el.fsm (logOf (Machine.outputs step el ins)) =
        transitionsOf (Machine.outputs step el ins) := by
  induction ins generalizing el with
  | nil => exact ⟨rfl, rfl⟩
  | cons i ins ih =>
      have hi := replay_step (hfault i List.mem_cons_self) hlogged.1
      have hins := ih (fun j hj => hfault j (List.mem_cons_of_mem _ hj)) hlogged.2
      rw [Machine.outputs_cons, logOf_append, transitionsOf_append, Machine.after_append,
        Machine.outputs_append, hi.1, hi.2, hins.1, hins.2]
      exact ⟨rfl, rfl⟩

theorem recoveryFailed_of_unlogged {el : EventLoop} {i : LiveInput} (h : el.Unlogged i) :
    el.stepEvent i = some .recoveryFailed ∧ (el.fsm.apply .recoveryFailed).valid = true := by
  cases i with
  | report rep =>
      obtain ⟨houtcome, hfsm⟩ := h
      refine ⟨by rw [stepEvent, houtcome], ?_⟩
      obtain hfsm | hfsm := hfsm <;> rw [hfsm] <;> rfl
  | _ => exact h.elim

/-- Where a line is missing the run makes a transition the reader never makes. -/
theorem logged_of_no_failure {el : EventLoop} {ins : List LiveInput}
    (h : ∀ r ∈ transitionsOf (Machine.outputs step el ins), r.event ≠ .recoveryFailed) :
    Machine.Along step (fun el i => ¬ el.Unlogged i) el ins := by
  refine along_of_transitions (fun el i hunlogged => ?_) h
  obtain ⟨hevent, hvalid⟩ := recoveryFailed_of_unlogged hunlogged
  refine ⟨el.fsm.apply .recoveryFailed, mem_transitionsOf.mpr ⟨mem_callsOf.mp ?_, hvalid⟩, rfl⟩
  rw [callsOf_step, hevent]
  exact List.mem_singleton.mpr rfl

theorem readable_step (el : EventLoop) (i : LiveInput) :
    ∀ eff ∈ (el.step i).2, eff.Readable := by
  cases i with
  | frame f =>
      obtain hok | ⟨hok, hseen⟩ | hacc := el.frame_cases f
      · rw [step, processFrame_of_not_ok hok]
        simp only [rejectFrame, List.forall_mem_cons]
        exact ⟨⟨printable_frameTypeName _,
            printable_append (printable_of_all rfl) (printable_decimal _)⟩, trivial,
          ⟨printable_of_all rfl, printable_nil⟩, List.forall_mem_nil _⟩
      · rw [step, processFrame_of_seen hok hseen, List.forall_mem_singleton]
        exact ⟨printable_frameTypeName _, printable_nil⟩
      · rw [step, processFrame_of_accepts hacc, List.forall_mem_cons]
        refine ⟨⟨printable_frameTypeName _, printable_nil⟩, fun eff heff => ?_⟩
        cases eff with
        | log e =>
            obtain rfl := log_mem_dispatch heff
            exact ⟨printable_of_all rfl, printable_nil⟩
        | _ => trivial
  | heartbeatTimeout nowMs =>
      intro eff heff
      cases eff with
      | log e =>
          obtain rfl : e = _ := by simpa [step, onHeartbeatTimeout] using heff
          exact ⟨printable_nil, printable_of_all rfl⟩
      | _ => trivial
  | report rep =>
      obtain ⟨outcome, seq, ts⟩ := rep
      cases outcome with
      | sent =>
          simp only [step, drainReport, List.forall_mem_cons]
          exact ⟨⟨printable_of_all rfl, printable_of_all rfl⟩, trivial,
            ⟨printable_nil, printable_of_all rfl⟩, List.forall_mem_nil _⟩
      | success =>
          simp only [step, drainReport, List.forall_mem_cons]
          exact ⟨⟨printable_nil, printable_of_all rfl⟩, List.forall_mem_nil _⟩
      | failed =>
          simp only [step, drainReport, List.forall_mem_cons]
          exact ⟨trivial, ⟨printable_nil, printable_of_all rfl⟩, List.forall_mem_nil _⟩

/-- Replaying the log of a run without fault events, with any timer expiries and
any recovery reports, makes the transitions of the run and ends in its state
exactly if no recovery fails in a state that gives it up. -/
theorem reproduces_iff_logged (ins : List LiveInput) (hfault : ∀ i ∈ ins, ¬ i.IsFaultEvent) :
    Reproduces (logOf (Machine.outputs step {} ins)) (transitionsOf (Machine.outputs step {} ins))
        (run ins).fsm ↔
      Machine.Along step (fun el i => ¬ el.Unlogged i) {} ins := by
  rw [reproduces_iff (readable_logOf (Machine.mem_outputs readable_step _ _))]
  refine ⟨fun h => logged_of_no_failure ?_, replay_run hfault⟩
  rw [← h.2]
  intro r hr hfailed
  obtain ⟨e, -, s, hdrives⟩ := mem_replay hr
  exact drives_ne_recoveryFailed e s (hdrives.trans (congrArg some hfailed))

/-- A heartbeat, its loss, and a recovery with this end. -/
def recoveryInputs (outcome : RecoveryOutcome) : List LiveInput :=
  [.frame (heartbeatAt 0 0), .heartbeatTimeout 350, .report ⟨.sent, 0, 350⟩,
   .report ⟨outcome, 0, 700⟩]

theorem reproduces_iff_logged_recovery :
    (∀ i ∈ recoveryInputs .success, ¬ i.IsFaultEvent) ∧
      Reproduces (logOf (Machine.outputs step {} (recoveryInputs .success)))
        (transitionsOf (Machine.outputs step {} (recoveryInputs .success)))
        (run (recoveryInputs .success)).fsm :=
  have hfault : ∀ i ∈ recoveryInputs .success, ¬ i.IsFaultEvent := by decide
  ⟨hfault, (reproduces_iff_logged _ hfault).mpr (by decide)⟩

/-- The log of a recovery that failed replays to `RECOVERING`, and the run ended
in `FAILED`. -/
theorem not_reproduces_failed_recovery :
    (∀ i ∈ recoveryInputs .failed, ¬ i.IsFaultEvent) ∧
      ¬ Reproduces (logOf (Machine.outputs step {} (recoveryInputs .failed)))
        (transitionsOf (Machine.outputs step {} (recoveryInputs .failed)))
        (run (recoveryInputs .failed)).fsm := by
  refine ⟨by decide, ?_⟩
  rw [reproduces_iff (readable_logOf (Machine.mem_outputs readable_step _ _))]
  decide

end EventLoop

end SafetyCopro
