import SafetyCopro.Supervisor.Episodes
import SafetyCopro.Supervisor.LiveRun

/-!
From which states the live supervisor can still become `HEALTHY`. The duplicate
detector forgets nothing, so heartbeats run out with their sequence numbers; and
from `DEGRADED` the only way back leads over a `SENT` report, which has to reach
the event loop before a `FAILED` one does.
-/

namespace SafetyCopro

/-! ### A `SENT` report to come -/

namespace RecoveryWorker
variable {τ : Type}

def Recovers (w : RecoveryWorker τ) : Prop := ∃ seq ts, .recover seq ts ∈ w.queue

/-- The next report that is no `SUCCESS` can be a `SENT` one. -/
def SentAhead (w : RecoveryWorker τ) : Prop :=
  match w.pc with
  | .reporting rep => rep.outcome = .sent ∨ (rep.outcome = .success ∧ w.Recovers)
  | .sending .. => True
  | _ => w.Recovers

def Alive (w : RecoveryWorker τ) : Prop := w.stopping = false ∧ w.pc ≠ .stopped

variable {w : RecoveryWorker τ}

theorem Parked.sentAhead_iff (h : w.pc.Parked) : w.SentAhead ↔ w.Recovers := by
  obtain ⟨queue, active, stopping, pc⟩ := w
  cases pc with
  | sending seq ts => exact h.elim
  | reporting rep => exact h.elim
  | inner => exact h.elim
  | _ => exact Iff.rfl

theorem Serving.sentAhead_iff (h : w.Serving) : w.SentAhead ↔ w.Recovers := by
  obtain hpc | hpc | ⟨untilMs, hpc⟩ | hpc := h <;> simp only [SentAhead, hpc]

theorem Recovers.of_rest {req : RecoveryRequest τ} {u rest : List (RecoveryRequest τ)}
    (hq : w.queue = u ++ req :: rest) (h : ∃ seq ts, .recover seq ts ∈ rest) : w.Recovers := by
  obtain ⟨seq, ts, hmem⟩ := h
  exact ⟨seq, ts, hq ▸ List.mem_append_right u (List.mem_cons_of_mem req hmem)⟩

theorem not_sentAhead_checkDeadline (hq : w.queue = []) : ¬ w.checkDeadline.SentAhead := by
  rw [checkDeadline]
  cases hactive : w.active with
  | none =>
      rintro ⟨seq, ts, hmem⟩
      rw [hq] at hmem
      cases hmem
  | some a =>
      simp only [hq, List.isEmpty_nil, if_true]
      rintro (hout | ⟨hout, -⟩) <;> cases hout

theorem recovers_of_serve {deadlineMs : U32}
    (h : (serve deadlineMs w w.queue).1.SentAhead) : w.Recovers := by
  obtain ⟨rs, -, ⟨-, hserve⟩ | ⟨seq, ts, rest, hq, -⟩ | ⟨a, ts, rest, -, hq, hserve⟩⟩ :=
    serve_cases deadlineMs w w.queue
  · rw [hserve] at h
    exact absurd h (not_sentAhead_checkDeadline rfl)
  · exact ⟨seq, ts, hq ▸ List.mem_append_right _ List.mem_cons_self⟩
  · rw [hserve] at h
    obtain hout | ⟨-, hrest⟩ := h
    · cases hout
    · exact .of_rest (u := []) hq hrest

/-- What can be hoped for behind a step could be hoped for before it, or the
step has posted a `FAILED` report. -/
theorem sentAhead_of_step {deadlineMs : U32} {nowMs : Int} {sent : Bool}
    (h : (w.step deadlineMs nowMs sent).1.SentAhead) :
    w.SentAhead ∨ ∃ rep, .reported rep ∈ (w.step deadlineMs nowMs sent).2 ∧
      rep.outcome = .failed := by
  obtain ⟨pc, hnext, hparked, hstep⟩ | ⟨hserving, hstep⟩ | ⟨seq, ts, hpc, hstep⟩ |
    ⟨rep, hpc, hstep⟩ := w.step_cases deadlineMs nowMs sent <;> rw [hstep] at h ⊢
  · have hrecovers := (Parked.sentAhead_iff (w := { w with pc }) hnext).mp h
    exact Or.inl ((Parked.sentAhead_iff hparked).mpr hrecovers)
  · exact Or.inl ((Serving.sentAhead_iff hserving).mpr (recovers_of_serve h))
  · left
    rw [SentAhead, hpc]
    trivial
  · cases hout : rep.outcome with
    | failed => exact Or.inr ⟨rep, List.mem_singleton.mpr rfl, hout⟩
    | sent =>
        left
        rw [SentAhead, hpc]
        exact Or.inl hout
    | success =>
        have hinner : ¬ (rep.outcome = .failed) := by rw [hout]; decide
        simp only [if_neg hinner] at h
        left
        rw [SentAhead, hpc]
        exact Or.inr ⟨hout, h⟩

theorem sentAhead_of_reported {deadlineMs : U32} {nowMs : Int} {sent : Bool}
    {rep : RecoveryReport τ} (h : .reported rep ∈ (w.step deadlineMs nowMs sent).2)
    (hout : rep.outcome = .sent) : w.SentAhead := by
  rw [SentAhead, pc_of_reported h]
  exact Or.inl hout

/-- The steps that are left before the report, at most. -/
def workLeft (w : RecoveryWorker τ) : Nat :=
  3 * w.queue.length +
    match w.pc with
    | .sending .. => 2
    | .reporting _ => 1
    | _ => 0

theorem workLeft_serve (deadlineMs : U32) (h : w.Recovers) :
    (serve deadlineMs w w.queue).1.SentAhead ∧
      (serve deadlineMs w w.queue).1.workLeft < 3 * w.queue.length := by
  obtain ⟨seq, ts, hmem⟩ := h
  obtain ⟨rs, -, ⟨hq, -⟩ | ⟨seq', ts', rest, hq, hserve⟩ | ⟨a, ts', rest, -, hq, hserve⟩⟩ :=
    serve_cases deadlineMs w w.queue
  · rw [hq] at hmem
    obtain ⟨r, -, hr⟩ := List.mem_map.mp hmem
    cases hr
  · rw [hserve]
    refine ⟨trivial, ?_⟩
    simp only [workLeft, hq, List.length_append, List.length_cons]
    omega
  · rw [hserve]
    refine ⟨Or.inr ⟨rfl, ?_⟩, ?_⟩
    · rw [hq] at hmem
      obtain hreq | hrest := List.mem_cons.mp hmem
      · cases hreq
      · exact ⟨seq, ts, hrest⟩
    · simp only [workLeft, hq, List.length_cons]
      omega

/-- One step towards the report, when the command can be sent. -/
theorem SentAhead.step (h : w.SentAhead) (halive : w.Alive) (deadlineMs : U32) (nowMs : Int) :
    (∃ rep, (w.step deadlineMs nowMs true).2 = [.reported rep] ∧ rep.outcome = .sent) ∨
      ((w.step deadlineMs nowMs true).1.SentAhead ∧
        (∀ rep, .reported rep ∈ (w.step deadlineMs nowMs true).2 → rep.outcome = .success) ∧
        (w.step deadlineMs nowMs true).1.workLeft < w.workLeft) := by
  have hrun : ¬ w.stopping = true := by simp [halive.1]
  have hserves : w.Recovers → 3 * w.queue.length ≤ w.workLeft →
      (serve deadlineMs w w.queue).1.SentAhead ∧
        (∀ rep, .reported rep ∈ (serve deadlineMs w w.queue).2 → rep.outcome = .success) ∧
        (serve deadlineMs w w.queue).1.workLeft < w.workLeft := fun hrecovers hle =>
    have hserve := workLeft_serve deadlineMs hrecovers
    ⟨hserve.1, fun rep hrep => absurd hrep not_reported_serve, Nat.lt_of_lt_of_le hserve.2 hle⟩
  have hqueue : w.Recovers → ¬ w.queue.isEmpty = true := by
    rintro ⟨seq, ts, hmem⟩ hnil
    rw [List.isEmpty_iff.mp hnil] at hmem
    cases hmem
  cases hpc : w.pc with
  | sending seq ts =>
      right
      simp only [RecoveryWorker.step, hpc, if_true]
      refine ⟨Or.inl rfl, fun rep hrep => ?_, ?_⟩
      · cases List.mem_singleton.mp hrep
      · simp only [workLeft, hpc]
        omega
  | reporting rep =>
      simp only [SentAhead, hpc] at h
      obtain hout | ⟨hout, hrecovers⟩ := h
      · exact Or.inl ⟨rep, by simp only [RecoveryWorker.step, hpc], hout⟩
      · right
        have hinner : ¬ (rep.outcome = .failed) := by rw [hout]; decide
        simp only [RecoveryWorker.step, hpc, if_neg hinner]
        refine ⟨hrecovers, fun rep' hrep => ?_, ?_⟩
        · obtain rfl := WorkerEvent.reported.inj (List.mem_singleton.mp hrep)
          exact hout
        · simp only [workLeft, hpc]
          omega
  | stopped => exact absurd hpc halive.2
  | top =>
      simp only [SentAhead, hpc] at h
      simp only [RecoveryWorker.step, hpc, if_neg hrun, if_neg (hqueue h)]
      exact Or.inr (hserves h (Nat.le_add_right _ _))
  | waiting =>
      simp only [SentAhead, hpc] at h
      simp only [RecoveryWorker.step, hpc, if_neg hrun, if_neg (hqueue h)]
      exact Or.inr (hserves h (Nat.le_add_right _ _))
  | waitingUntil untilMs =>
      simp only [SentAhead, hpc] at h
      simp only [RecoveryWorker.step, hpc, if_neg hrun]
      exact Or.inr (hserves h (Nat.le_add_right _ _))
  | inner =>
      simp only [SentAhead, hpc] at h
      simp only [RecoveryWorker.step, hpc]
      exact Or.inr (hserves h (Nat.le_add_right _ _))

theorem serve_alive (deadlineMs : U32) (hrun : w.stopping = false) (q : List (RecoveryRequest τ)) :
    (serve deadlineMs w q).1.Alive := by
  obtain ⟨rs, -, ⟨-, hserve⟩ | ⟨seq, ts, rest, -, hserve⟩ | ⟨a, ts, rest, -, -, hserve⟩⟩ :=
    serve_cases deadlineMs w q <;> rw [hserve]
  · rw [checkDeadline]
    split
    · split <;> exact ⟨hrun, by simp⟩
    · exact ⟨hrun, by simp⟩
  · exact ⟨hrun, by simp⟩
  · exact ⟨hrun, by simp⟩

theorem Alive.step (h : w.Alive) (deadlineMs : U32) (nowMs : Int) (sent : Bool) :
    (w.step deadlineMs nowMs sent).1.Alive := by
  obtain ⟨hrun, hpc⟩ := h
  have hnot : ¬ w.stopping = true := by simp [hrun]
  unfold RecoveryWorker.step
  split
  · rw [if_neg hnot]
    split
    · split <;> exact ⟨hrun, by simp⟩
    · exact serve_alive deadlineMs hrun _
  · rw [if_neg hnot]
    split
    · exact ⟨hrun, hpc⟩
    · exact serve_alive deadlineMs hrun _
  · rw [if_neg hnot]
    exact serve_alive deadlineMs hrun _
  · split <;> exact ⟨hrun, by simp⟩
  · dsimp only
    split <;> exact ⟨hrun, by simp⟩
  · exact serve_alive deadlineMs hrun _
  · exact ⟨hrun, hpc⟩

end RecoveryWorker

/-! ### Heartbeats to come -/

namespace EventLoop

/-- A heartbeat with this number would still be accepted. -/
def FreshHeartbeat (el : EventLoop) : Prop :=
  ∃ seq : U16, (safetyFrameHeartbeat, seq) ∉ el.dup.seen

theorem FreshHeartbeat.of_after {el : EventLoop} {ins : List LiveInput}
    (h : (Machine.after step el ins).FreshHeartbeat) : el.FreshHeartbeat := by
  obtain ⟨seq, hseq⟩ := h
  exact ⟨seq, fun hseen => hseq ((mem_after_seen el ins _).mpr (Or.inl hseen))⟩

/-- Only an accepted heartbeat makes the machine `HEALTHY`. -/
theorem freshHeartbeat_of_healthy {el : EventLoop} {i : LiveInput} (h : el.fsm ≠ .healthy)
    (hnext : (el.step i).1.fsm = .healthy) : el.FreshHeartbeat := by
  rw [step_fsm] at hnext
  cases i with
  | frame f =>
      rw [stepEvent] at hnext
      split at hnext
      · rename_i hacc
        by_cases htype : f.type = safetyFrameHeartbeat
        · exact ⟨f.seq, htype ▸ hacc.2⟩
        · rw [frameEvent, if_neg htype] at hnext
          split at hnext
          · split at hnext
            · cases hfsm : el.fsm <;> simp_all [HealthState.target]
            · exact absurd hnext h
          · exact absurd hnext h
      · exact absurd hnext h
  | heartbeatTimeout nowMs =>
      cases hfsm : el.fsm <;> simp_all [stepEvent, HealthState.target]
  | report rep =>
      cases hout : rep.outcome <;> cases hfsm : el.fsm <;>
        simp_all [stepEvent, HealthState.target]

theorem not_healthy_after_of_stale {el : EventLoop} (hstale : ¬ el.FreshHeartbeat)
    (h : el.fsm ≠ .healthy) (ins : List LiveInput) :
    (Machine.after step el ins).fsm ≠ .healthy := by
  refine (Machine.after_invariant
    (P := fun el : EventLoop => ¬ el.FreshHeartbeat ∧ el.fsm ≠ .healthy)
    (fun el i hel => ⟨fun hfresh => hel.1 ?_, fun hnext => hel.1 ?_⟩) ⟨hstale, h⟩ ins).2
  · exact @FreshHeartbeat.of_after el [i] hfresh
  · exact freshHeartbeat_of_healthy hel.2 hnext

theorem after_reports (el : EventLoop) (reps : List (RecoveryReport U16)) :
    Machine.after step el (reps.map .report) = Machine.after drainReport el reps := by
  induction reps generalizing el with
  | nil => rfl
  | cons rep reps ih => exact ih _

end EventLoop

/-! ### The supervisor -/

namespace Supervisor

/-- A `SENT` report can still be drained, and no `FAILED` one with it or before it. -/
def SentAhead (s : Supervisor) : Prop :=
  (∀ rep ∈ s.reports, rep.outcome ≠ .failed) ∧
    ((∃ rep ∈ s.reports, rep.outcome = .sent) ∨ s.worker.SentAhead)

def Curable (s : Supervisor) : Prop :=
  match s.loop.fsm with
  | .healthy => True
  | .booting | .recovering => s.loop.FreshHeartbeat
  | .degraded => s.loop.FreshHeartbeat ∧ s.SentAhead
  | .failed | .safeMode => False

/-- What an action is to the event loop. -/
def inputs (s : Supervisor) : LiveAction → List LiveInput
  | .frame f => [.frame f]
  | .heartbeatTimeout nowMs => [.heartbeatTimeout nowMs]
  | .worker .. => []
  | .drain => s.reports.map .report

variable {deadlineMs : U32} {s : Supervisor}

theorem foldl_perform_loop (effs : List Effect) (s : Supervisor) :
    (effs.foldl perform s).loop = s.loop ∧ (effs.foldl perform s).reports = s.reports := by
  induction effs generalizing s with
  | nil => exact ⟨rfl, rfl⟩
  | cons eff effs ih =>
      obtain ⟨hloop, hreports⟩ := ih (s.perform eff)
      rw [List.foldl_cons, hloop, hreports]
      cases eff <;> exact ⟨rfl, rfl⟩

theorem step_loop (a : LiveAction) :
    (s.step deadlineMs a).1.loop = Machine.after EventLoop.step s.loop (s.inputs a) := by
  cases a with
  | frame f => exact (foldl_perform_loop _ _).1
  | heartbeatTimeout nowMs => exact (foldl_perform_loop _ _).1
  | worker nowMs sent => rfl
  | drain =>
      rw [inputs, EventLoop.after_reports]
      exact (foldl_perform_loop _ _).1

theorem Curable.healthy_or_fresh (h : s.Curable) :
    s.loop.fsm = .healthy ∨ s.loop.FreshHeartbeat := by
  unfold Curable at h
  split at h
  · exact Or.inl (by assumption)
  · exact Or.inr h
  · exact Or.inr h
  · exact Or.inr h.1
  · exact h.elim
  · exact h.elim

theorem perform_foldl_of_idle {effs : List Effect}
    (hreq : ∀ seq nowMs, .requestRecovery seq nowMs ∉ effs)
    (hnotify : ∀ nowMs, .notifyHeartbeatRestored nowMs ∉ effs) (s : Supervisor) :
    effs.foldl perform s = s := by
  induction effs with
  | nil => rfl
  | cons eff effs ih =>
      have hkept : s.perform eff = s := by
        cases eff with
        | requestRecovery seq nowMs => exact absurd List.mem_cons_self (hreq seq nowMs)
        | notifyHeartbeatRestored nowMs => exact absurd List.mem_cons_self (hnotify nowMs)
        | _ => rfl
      rw [List.foldl_cons, hkept]
      exact ih (fun seq nowMs hmem => hreq seq nowMs (List.mem_cons_of_mem _ hmem))
        fun nowMs hmem => hnotify nowMs (List.mem_cons_of_mem _ hmem)

/-- While the machine is `DEGRADED`, frames and expiries leave the worker alone,
and nothing but a critical fault moves the machine. -/
theorem frame_degraded (h : s.loop.fsm = .degraded) (f : ParsedFrame) :
    (s.step deadlineMs (.frame f)).1 = { s with loop := (s.loop.processFrame f).1 } ∧
      ((s.loop.processFrame f).1.fsm = .degraded ∨ (s.loop.processFrame f).1.fsm = .safeMode) := by
  constructor
  · refine perform_foldl_of_idle (fun seq nowMs hmem => ?_) (fun nowMs hmem => ?_) _ <;>
    · obtain hok | ⟨hok, hseen⟩ | hacc := s.loop.frame_cases f
      · simp [EventLoop.processFrame_of_not_ok hok, EventLoop.rejectFrame] at hmem
      · simp [EventLoop.processFrame_of_seen hok hseen] at hmem
      · have hnot : ¬ (s.loop.record f).fsm = .recovering := by
          rw [EventLoop.record, h]
          decide
        rw [EventLoop.processFrame_of_accepts hacc, EventLoop.dispatch, EventLoop.onHeartbeat,
          EventLoop.onFaultEvent] at hmem
        repeat' split at hmem
        all_goals simp_all
  · have hfsm := s.loop.step_fsm (.frame f)
    rw [EventLoop.step] at hfsm
    rw [hfsm, h]
    cases hevent : s.loop.stepEvent (.frame f) with
    | none => exact Or.inl rfl
    | some e =>
        rw [EventLoop.stepEvent] at hevent
        split at hevent
        · rw [frameEvent, h] at hevent
          repeat' split at hevent
          · obtain rfl := Option.some.inj hevent
            exact Or.inl rfl
          · obtain rfl := Option.some.inj hevent
            exact Or.inr rfl
          all_goals simp_all
        · cases hevent

theorem heartbeatTimeout_degraded (h : s.loop.fsm = .degraded) (nowMs : I64) :
    (s.step deadlineMs (.heartbeatTimeout nowMs)).1 = s := by
  obtain ⟨⟨fsm, dup, txSeq⟩, worker, reports⟩ := s
  obtain rfl : fsm = .degraded := h
  rfl

theorem drain_worker : (s.step deadlineMs .drain).1.worker = s.worker := by
  have hnone := @perform_foldl_of_idle (s.loop.drainRecoveryReports s.reports).2
    (fun seq nowMs hmem => Machine.mem_outputs (P := (· ≠ .requestRecovery seq nowMs))
      (fun el rep eff heff => by
        rintro rfl
        cases hout : rep.outcome <;> simp [EventLoop.drainReport, hout] at heff) _ _ _ hmem rfl)
    (fun nowMs hmem => Machine.mem_outputs (P := (· ≠ .notifyHeartbeatRestored nowMs))
      (fun el rep eff heff => by
        rintro rfl
        cases hout : rep.outcome <;> simp [EventLoop.drainReport, hout] at heff) _ _ _ hmem rfl)
  rw [step, carry, hnone]

theorem drain_failed {el : EventLoop} {reps : List (RecoveryReport U16)}
    (hfsm : el.fsm = .degraded ∨ el.fsm = .recovering ∨ el.fsm = .failed)
    (h : ∃ rep ∈ reps, rep.outcome = .failed) :
    (Machine.after EventLoop.drainReport el reps).fsm = .failed := by
  induction reps generalizing el with
  | nil =>
      obtain ⟨rep, hrep, -⟩ := h
      cases hrep
  | cons rep reps ih =>
      have hstep := el.step_fsm (.report rep)
      rw [EventLoop.step] at hstep
      obtain ⟨rep', hmem, hout⟩ := h
      obtain rfl | hmem := List.mem_cons.mp hmem
      · have hfailed : (el.drainReport rep').1.fsm = .failed := by
          rw [hstep, EventLoop.stepEvent, hout]
          obtain h | h | h := hfsm <;> rw [h] <;> rfl
        rw [Machine.after_cons, ← EventLoop.after_reports,
          EventLoop.after_fsm_of_terminal (Or.inl hfailed), hfailed]
      · refine ih ?_ ⟨rep', hmem, hout⟩
        rw [hstep, EventLoop.stepEvent]
        cases rep.outcome <;> obtain h | h | h := hfsm <;> rw [h] <;> decide

theorem degraded_after_success {el : EventLoop} {reps : List (RecoveryReport U16)}
    (hfsm : el.fsm = .degraded) (h : ∀ rep ∈ reps, rep.outcome = .success) :
    (Machine.after EventLoop.drainReport el reps).fsm = .degraded := by
  induction reps generalizing el with
  | nil => exact hfsm
  | cons rep reps ih =>
      refine ih ?_ fun rep' hrep' => h rep' (List.mem_cons_of_mem rep hrep')
      rw [EventLoop.drainReport, h rep List.mem_cons_self]
      exact hfsm

theorem recovering_after_sent {el : EventLoop} {reps : List (RecoveryReport U16)}
    (hfsm : (el.fsm = .degraded ∧ ∃ rep ∈ reps, rep.outcome = .sent) ∨ el.fsm = .recovering)
    (h : ∀ rep ∈ reps, rep.outcome ≠ .failed) :
    (Machine.after EventLoop.drainReport el reps).fsm = .recovering := by
  induction reps generalizing el with
  | nil =>
      obtain ⟨-, rep, hrep, -⟩ | hfsm := hfsm
      · cases hrep
      · exact hfsm
  | cons rep reps ih =>
      refine ih ?_ fun rep' hrep' => h rep' (List.mem_cons_of_mem rep hrep')
      cases hout : rep.outcome with
      | sent =>
          simp only [EventLoop.drainReport, hout]
          obtain ⟨hfsm, -⟩ | hfsm := hfsm <;> exact Or.inr (by rw [hfsm]; rfl)
      | success =>
          simp only [EventLoop.drainReport, hout]
          obtain ⟨hfsm, rep', hmem, hsent⟩ | hfsm := hfsm
          · obtain rfl | hmem := List.mem_cons.mp hmem
            · rw [hout] at hsent
              cases hsent
            · exact Or.inl ⟨hfsm, rep', hmem, hsent⟩
          · exact Or.inr hfsm
      | failed => exact absurd hout (h rep List.mem_cons_self)

theorem worker_sentAhead {nowMs : Int} {sent : Bool}
    (h : (s.step deadlineMs (.worker nowMs sent)).1.SentAhead) : s.SentAhead := by
  obtain ⟨hnone, hsent⟩ := h
  have hold : ∀ rep ∈ s.reports, rep.outcome ≠ .failed := fun rep hrep =>
    hnone rep (List.mem_append_left _ hrep)
  refine ⟨hold, ?_⟩
  obtain ⟨rep, hrep, hout⟩ | hahead := hsent
  · obtain hrep | hrep := List.mem_append.mp hrep
    · exact Or.inl ⟨rep, hrep, hout⟩
    · exact Or.inr (RecoveryWorker.sentAhead_of_reported
        (WorkerEvent.mem_filterMap_report.mp hrep) hout)
  · obtain hahead | ⟨rep, hrep, hout⟩ := RecoveryWorker.sentAhead_of_step hahead
    · exact Or.inr hahead
    · have hmem := List.mem_append_right s.reports (WorkerEvent.mem_filterMap_report.mpr hrep)
      exact absurd hout (hnone rep hmem)

theorem drain_sentAhead (hfsm : s.loop.fsm = .degraded)
    (h : (s.step deadlineMs .drain).1.Curable) : s.SentAhead := by
  have hloop : (s.step deadlineMs .drain).1.loop.fsm =
      (Machine.after EventLoop.drainReport s.loop s.reports).fsm :=
    congrArg EventLoop.fsm ((step_loop .drain).trans (EventLoop.after_reports _ _))
  have hnone : ∀ rep ∈ s.reports, rep.outcome ≠ .failed := by
    intro rep hrep hout
    have hfailed := drain_failed (Or.inl hfsm) ⟨rep, hrep, hout⟩
    rw [Curable, hloop, hfailed] at h
    exact h
  refine ⟨hnone, ?_⟩
  by_cases hsent : ∃ rep ∈ s.reports, rep.outcome = .sent
  · exact Or.inl hsent
  · -- all that is drained is `SUCCESS`, and the machine stays where it is
    have hsame : (Machine.after EventLoop.drainReport s.loop s.reports).fsm = .degraded := by
      have hsuccess : ∀ rep ∈ s.reports, rep.outcome = .success := by
        intro rep hrep
        cases hout : rep.outcome with
        | sent => exact absurd ⟨rep, hrep, hout⟩ hsent
        | success => rfl
        | failed => exact absurd hout (hnone rep hrep)
      exact degraded_after_success hfsm hsuccess
    rw [Curable, hloop, hsame] at h
    obtain ⟨-, -, ⟨rep, hrep, -⟩ | hahead⟩ := h
    · have hreports : (s.step deadlineMs .drain).1.reports = [] := (foldl_perform_loop _ _).2
      rw [hreports] at hrep
      cases hrep
    · rw [drain_worker] at hahead
      exact Or.inr hahead

/-- A step never makes curable what was not. -/
theorem Curable.of_step {a : LiveAction} (h : (s.step deadlineMs a).1.Curable) : s.Curable := by
  have hfresh : s.loop.fsm ≠ .healthy → s.loop.FreshHeartbeat := by
    intro hne
    by_contra hstale
    obtain hhealthy | hnext := h.healthy_or_fresh
    · rw [step_loop] at hhealthy
      exact EventLoop.not_healthy_after_of_stale hstale hne _ hhealthy
    · rw [step_loop] at hnext
      exact hstale hnext.of_after
  have hterminal : ¬ s.loop.fsm.Terminal := by
    intro hend
    have hnext : (s.step deadlineMs a).1.loop.fsm = s.loop.fsm := by
      rw [step_loop, EventLoop.after_fsm_of_terminal hend]
    rw [Curable, hnext] at h
    obtain hend | hend := hend <;> rw [hend] at h <;> exact h
  cases hfsm : s.loop.fsm with
  | healthy => simp only [Curable, hfsm]
  | failed => exact absurd (Or.inl hfsm) hterminal
  | safeMode => exact absurd (Or.inr hfsm) hterminal
  | booting =>
      simp only [Curable, hfsm]
      exact hfresh (by rw [hfsm]; decide)
  | recovering =>
      simp only [Curable, hfsm]
      exact hfresh (by rw [hfsm]; decide)
  | degraded =>
      simp only [Curable, hfsm]
      refine ⟨hfresh (by rw [hfsm]; decide), ?_⟩
      cases a with
      | frame f =>
          obtain ⟨hstep, hnext | hnext⟩ := @frame_degraded deadlineMs s hfsm f <;>
            rw [hstep, Curable] at h <;> simp only [hnext] at h
          exact h.2
      | heartbeatTimeout nowMs =>
          rw [heartbeatTimeout_degraded hfsm, Curable, hfsm] at h
          exact h.2
      | worker nowMs sent =>
          have hnext : (s.step deadlineMs (.worker nowMs sent)).1.loop.fsm = .degraded := hfsm
          rw [Curable, hnext] at h
          exact worker_sentAhead h.2
      | drain => exact drain_sentAhead hfsm h

/-! ### The way back -/

/-- HEALTHY can be reached. -/
def Recovers (deadlineMs : U32) (s : Supervisor) : Prop :=
  ∃ acts, (Machine.after (step deadlineMs) s acts).loop.fsm = .healthy

theorem Recovers.of_step {a : LiveAction} (h : (s.step deadlineMs a).1.Recovers deadlineMs) :
    s.Recovers deadlineMs := by
  obtain ⟨acts, hacts⟩ := h
  exact ⟨a :: acts, hacts⟩

theorem recovers_of_fresh (hfsm : s.loop.fsm = .booting ∨ s.loop.fsm = .recovering)
    (h : s.loop.FreshHeartbeat) : s.Recovers deadlineMs := by
  obtain ⟨seq, hseq⟩ := h
  refine ⟨[.frame (EventLoop.heartbeatAt seq 0)], ?_⟩
  have hacc : s.loop.Accepts (EventLoop.heartbeatAt seq 0) := ⟨rfl, hseq⟩
  have hnext := s.loop.step_fsm (.frame (EventLoop.heartbeatAt seq 0))
  rw [EventLoop.stepEvent, if_pos hacc] at hnext
  rw [Machine.after_cons, Machine.after_nil, step_loop, inputs, Machine.after_cons,
    Machine.after_nil, hnext]
  obtain hfsm | hfsm := hfsm <;> rw [hfsm] <;> rfl

theorem recovers_of_sent (hfsm : s.loop.fsm = .degraded) (hfresh : s.loop.FreshHeartbeat)
    (hnone : ∀ rep ∈ s.reports, rep.outcome ≠ .failed)
    (hsent : ∃ rep ∈ s.reports, rep.outcome = .sent) : s.Recovers deadlineMs := by
  have hloop : (s.step deadlineMs .drain).1.loop =
      Machine.after EventLoop.drainReport s.loop s.reports :=
    (step_loop .drain).trans (EventLoop.after_reports _ _)
  refine .of_step (a := .drain) (recovers_of_fresh (Or.inr ?_) ?_)
  · rw [hloop]
    exact recovering_after_sent (Or.inl ⟨hfsm, hsent⟩) hnone
  · obtain ⟨seq, hseq⟩ := hfresh
    refine ⟨seq, fun hseen => hseq ?_⟩
    rw [hloop, ← EventLoop.after_reports, EventLoop.mem_after_seen] at hseen
    obtain hseen | ⟨f, hf, -⟩ := hseen
    · exact hseen
    · obtain ⟨rep, -, hrep⟩ := List.mem_map.mp hf
      cases hrep

/-- The worker is let run until it has posted the report. -/
theorem recovers_of_sentAhead (hfsm : s.loop.fsm = .degraded) (hfresh : s.loop.FreshHeartbeat)
    (halive : s.worker.Alive) (h : s.SentAhead) : s.Recovers deadlineMs := by
  obtain ⟨hnone, hsent | hahead⟩ := h
  · exact recovers_of_sent hfsm hfresh hnone hsent
  · induction hn : s.worker.workLeft using Nat.strong_induction_on generalizing s with
    | _ n ih =>
        refine .of_step (a := .worker 0 true) ?_
        have hkept : ∀ rep ∈ (s.step deadlineMs (.worker 0 true)).1.reports,
            rep ∈ s.reports ∨ .reported rep ∈ (s.worker.step deadlineMs 0 true).2 := by
          intro rep hrep
          exact (List.mem_append.mp hrep).imp_right WorkerEvent.mem_filterMap_report.mp
        obtain ⟨rep, hevs, hout⟩ | ⟨hnext, hquiet, hless⟩ := hahead.step halive deadlineMs 0
        · refine recovers_of_sent hfsm hfresh (fun rep' hrep' => ?_) ⟨rep, ?_, hout⟩
          · obtain hrep' | hrep' := hkept rep' hrep'
            · exact hnone rep' hrep'
            · rw [hevs] at hrep'
              obtain rfl := WorkerEvent.reported.inj (List.mem_singleton.mp hrep')
              rw [hout]
              decide
          · have hmem : .reported rep ∈ (s.worker.step deadlineMs 0 true).2 := by
              rw [hevs]
              exact List.mem_singleton.mpr rfl
            exact List.mem_append_right _ (WorkerEvent.mem_filterMap_report.mpr hmem)
        · refine ih _ (hn ▸ hless) hfsm hfresh (halive.step deadlineMs 0 true)
            (fun rep hrep => ?_) hnext rfl
          obtain hrep | hrep := hkept rep hrep
          · exact hnone rep hrep
          · rw [hquiet rep hrep]
            decide

theorem Curable.recovers (h : s.Curable) (halive : s.worker.Alive) : s.Recovers deadlineMs := by
  unfold Curable at h
  split at h
  · exact ⟨[], by assumption⟩
  · exact recovers_of_fresh (Or.inl (by assumption)) h
  · exact recovers_of_fresh (Or.inr (by assumption)) h
  · exact recovers_of_sentAhead (by assumption) h.1 halive h.2
  · exact h.elim
  · exact h.elim

theorem Curable.of_after {acts : List LiveAction}
    (h : (Machine.after (step deadlineMs) s acts).Curable) : s.Curable := by
  induction acts generalizing s with
  | nil => exact h
  | cons a acts ih => exact (ih h).of_step

theorem foldl_perform_alive {effs : List Effect} {s : Supervisor} (h : s.worker.Alive) :
    (effs.foldl perform s).worker.Alive := by
  induction effs generalizing s with
  | nil => exact h
  | cons eff effs ih =>
      refine ih ?_
      cases eff <;> exact h

theorem alive_after (deadlineMs : U32) (acts : List LiveAction) :
    (Machine.after (step deadlineMs) {} acts).worker.Alive := by
  refine Machine.after_invariant (P := fun s : Supervisor => s.worker.Alive)
    (fun s a h => ?_) ⟨rfl, by simp⟩ acts
  cases a with
  | worker nowMs sent => exact h.step deadlineMs nowMs sent
  | _ => exact foldl_perform_alive h

/-- At every point of every run of the live supervisor: it can become `HEALTHY`
some time later if and only if it is `HEALTHY`, or a heartbeat number is left and
the machine is `BOOTING` or `RECOVERING`, or a heartbeat number is left, the
machine is `DEGRADED` and a `SENT` report can still be drained with no `FAILED`
one before it. -/
theorem recovers_iff_curable (deadlineMs : U32) (acts : List LiveAction) :
    (Machine.after (step deadlineMs) {} acts).Recovers deadlineMs ↔
      (Machine.after (step deadlineMs) {} acts).Curable := by
  constructor
  · rintro ⟨more, hhealthy⟩
    refine @Curable.of_after deadlineMs _ more ?_
    rw [Curable, hhealthy]
    trivial
  · intro h
    exact h.recovers (alive_after deadlineMs acts)

end Supervisor

end SafetyCopro
