import SafetyCopro.Supervisor.Episodes

/-!
Which report fails an episode. Reports wait in a queue while the machine moves
on, so a report of a recovery that failed can be drained in a later episode.
That happens only if the machine degraded anew while the report was still on
its way.
-/

namespace SafetyCopro

namespace Traced

/-- A `FAILED` report waits to be drained or is being made. -/
def FailedPending (s : Traced) : Prop :=
  (∃ rep ∈ s.reports, rep.outcome = .failed) ∨
    (match s.worker.pc with
      | .reporting rep => rep.outcome = .failed
      | _ => False)

instance (s : Traced) : Decidable s.FailedPending := by
  unfold FailedPending
  cases s.worker.pc <;> infer_instance

def Degrades (s : Traced) : LiveAction → Prop
  | .frame f => s.SilentDegrade f
  | .heartbeatTimeout _ => s.loop.fsm = .healthy
  | _ => False

instance (s : Traced) : (a : LiveAction) → Decidable (s.Degrades a)
  | .frame f => inferInstanceAs (Decidable (s.SilentDegrade f))
  | .heartbeatTimeout _ => inferInstanceAs (Decidable (s.loop.fsm = .healthy))
  | .worker .. | .drain => instDecidableFalse

def Current (s : Traced) (t : Ticket) : Prop :=
  t.episode = s.episode ∧ s.requested = some t.seq

def drained (s : Traced) (before : List (RecoveryReport Ticket)) : EventLoop :=
  Machine.after EventLoop.drainReport s.loop (before.map (RecoveryReport.map Ticket.seq))

/-- When the reports are drained, this one moves the machine to `FAILED`. -/
def FailsBy (s : Traced) (rep : RecoveryReport Ticket) : Prop :=
  ∃ before rest, s.reports = before ++ rep :: rest ∧ (s.drained before).fsm ≠ .failed ∧
    ((s.drained before).drainReport (rep.map Ticket.seq)).1.fsm = .failed

/-- Failures on their way belong to the episode the machine is in, and so will
those still to come. -/
structure Timely (s : Traced) : Prop where
  idle : s.loop.fsm = .booting ∨ s.loop.fsm = .healthy → s.worker.Settles fun _ => False
  queue : s.loop.fsm = .degraded ∨ s.loop.fsm = .recovering → s.worker.Settles s.Current
  reports : s.loop.fsm = .degraded ∨ s.loop.fsm = .recovering →
    ∀ rep, rep ∈ s.reports ∨ s.worker.pc = .reporting rep → rep.outcome = .failed →
      s.Current rep.seq

theorem failedPending_of {s : Traced} {rep : RecoveryReport Ticket}
    (h : rep ∈ s.reports ∨ s.worker.pc = .reporting rep) (hout : rep.outcome = .failed) :
    s.FailedPending := by
  obtain hrep | hpc := h
  · exact Or.inl ⟨rep, hrep, hout⟩
  · right
    rw [hpc]
    exact hout

theorem Timely.frame {s : Traced} (h : s.Timely) {deadlineMs : U32} {f : ParsedFrame}
    (hf : ¬ (s.SilentDegrade f ∧ s.FailedPending)) :
    (s.step deadlineMs (.frame f)).1.Timely := by
  obtain ⟨hsilent, loop, hfsm, heq⟩ | ⟨-, loop, hfsm, heq⟩ | ⟨-, loop, hquiet, heq⟩ :=
    s.frame_cases deadlineMs f <;> rw [heq]
  · refine ⟨fun hnow => ?_, fun _ => ?_, fun _ rep hrep hout => ?_⟩
    · simp [hfsm] at hnow
    · exact (h.idle (Or.inr hsilent.2.2.2)).mono fun _ => False.elim
    · exact absurd ⟨hsilent, failedPending_of hrep hout⟩ hf
  · refine ⟨fun _ => Or.inr (Or.inl ⟨f.ts, List.getLast?_concat⟩), fun hnow => ?_, fun hnow => ?_⟩
    · simp [hfsm] at hnow
    · simp [hfsm] at hnow
  · obtain hsame | ⟨hbefore, hnow⟩ | hnow := hquiet
    · exact ⟨fun hi => h.idle (hsame ▸ hi), fun hb => h.queue (hsame ▸ hb),
        fun hb => h.reports (hsame ▸ hb)⟩
    · refine ⟨fun _ => h.idle (Or.inl hbefore), fun hb => ?_, fun hb => ?_⟩
      · simp [hnow] at hb
      · simp [hnow] at hb
    · refine ⟨fun hi => ?_, fun hb => ?_, fun hb => ?_⟩
      · simp [hnow] at hi
      · simp [hnow] at hb
      · simp [hnow] at hb

theorem Timely.step {s : Traced} (h : s.Timely) {deadlineMs : U32} {a : LiveAction}
    (ha : ¬ (s.Degrades a ∧ s.FailedPending)) : (s.step deadlineMs a).1.Timely := by
  cases a with
  | frame f => exact h.frame ha
  | heartbeatTimeout nowMs =>
      obtain ⟨hhealthy, loop, seq, hfsm, heq⟩ | ⟨-, loop, hsame, heq⟩ :=
        s.heartbeatTimeout_cases deadlineMs nowMs <;> rw [heq]
      · refine ⟨fun hnow => ?_, fun _ => Or.inl ?_, fun _ rep hrep hout => ?_⟩
        · simp [hfsm] at hnow
        · exact ⟨⟨seq, s.episode + 1⟩, nowMs, List.getLast?_concat, rfl, rfl⟩
        · exact absurd ⟨hhealthy, failedPending_of hrep hout⟩ ha
      · exact ⟨fun hi => h.idle (hsame ▸ hi), fun hb => h.queue (hsame ▸ hb),
          fun hb => h.reports (hsame ▸ hb)⟩
  | worker nowMs sent =>
      refine ⟨fun hi => ((h.idle hi).step deadlineMs nowMs sent).1,
        fun hb => ((h.queue hb).step deadlineMs nowMs sent).1, fun hb rep hrep hout => ?_⟩
      obtain hrep | hpc := hrep
      · obtain hrep | hrep := List.mem_append.mp hrep
        · exact h.reports hb rep (Or.inl hrep) hout
        · have hpc := RecoveryWorker.pc_of_reported (WorkerEvent.mem_filterMap_report.mp hrep)
          exact h.reports hb rep (Or.inr hpc) hout
      · exact ((h.queue hb).step deadlineMs nowMs sent).2 rep hpc hout
  | drain =>
      have hmoves := drained_after s.loop (s.reports.map (RecoveryReport.map Ticket.seq))
      rw [drain_eq]
      refine ⟨fun hi => h.idle (hmoves.idle_of hi), fun hb => h.queue (hmoves.busy_of hb),
        fun hb rep hrep => h.reports (hmoves.busy_of hb) rep (hrep.imp ?_ id)⟩
      intro hrep
      cases hrep

/-- Only a `FAILED` report moves the machine to `FAILED`, and only out of an
episode. -/
theorem drainReport_failed {el : EventLoop} {rep : RecoveryReport U16} (hnot : el.fsm ≠ .failed)
    (h : (el.drainReport rep).1.fsm = .failed) :
    rep.outcome = .failed ∧ (el.fsm = .degraded ∨ el.fsm = .recovering) := by
  obtain ⟨outcome, seq, ts⟩ := rep
  obtain ⟨fsm, dup, txSeq⟩ := el
  cases outcome with
  | sent => cases fsm <;> first | exact absurd rfl hnot | cases h
  | success => exact absurd h hnot
  | failed =>
      cases fsm with
      | degraded => exact ⟨rfl, Or.inl rfl⟩
      | recovering => exact ⟨rfl, Or.inr rfl⟩
      | failed => exact absurd rfl hnot
      | _ => cases h

theorem Timely.failsBy {s : Traced} (h : s.Timely) {rep : RecoveryReport Ticket}
    (hrep : s.FailsBy rep) : s.Current rep.seq := by
  obtain ⟨before, rest, hreports, hnot, hfailed⟩ := hrep
  obtain ⟨hout, hbusy⟩ := drainReport_failed hnot hfailed
  have hmem : rep ∈ s.reports := by simp [hreports]
  exact h.reports ((drained_after s.loop _).busy_of hbusy) rep (Or.inl hmem) hout

/-- In a run in which the machine never degrades while a `FAILED` report is on
its way, an episode is failed only by the report of the request made for it. -/
theorem failed_by_current_request {deadlineMs : U32} {acts pre post : List LiveAction}
    (hacts : Machine.Along (step deadlineMs) (fun s a => ¬ (s.Degrades a ∧ s.FailedPending)) {}
      acts)
    (hdrain : acts = pre ++ .drain :: post) {rep : RecoveryReport Ticket}
    (hrep : (Machine.after (step deadlineMs) {} pre).FailsBy rep) :
    (Machine.after (step deadlineMs) {} pre).requested = some rep.seq.seq ∧
      rep.seq.episode = (Machine.after (step deadlineMs) {} pre).episode := by
  have hstart : Timely {} :=
    ⟨fun _ => Or.inr (Or.inr ⟨rfl, nofun⟩), fun hb => (by simp at hb), fun hb => (by simp at hb)⟩
  have htimely : (Machine.after (step deadlineMs) {} pre).Timely :=
    Machine.after_of_along (P := Timely) (fun s a hs ha => hs.step ha) hstart (hdrain ▸ hacts)
  exact (htimely.failsBy hrep).symm

/-! Two runs, up to the drain that fails an episode. -/

def heartbeat (seq : U16) (tsMs : U32) : LiveAction :=
  .frame (.packed safetyFrameHeartbeat seq tsMs (safetyHeartbeatPayload tsMs (seq.setWidth 32)))

def failedRun : List LiveAction :=
  [heartbeat 0 100, .heartbeatTimeout 450] ++ List.replicate 5 (.worker 450 true)

theorem failed_by_current_request_once :
    (Machine.after (step 350) {} failedRun).requested = some 1 ∧
      1 = (Machine.after (step 350) {} failedRun).episode := by
  have hfails : (Machine.after (step 350) {} failedRun).FailsBy ⟨.failed, ⟨1, 1⟩, 800⟩ :=
    ⟨[⟨.sent, ⟨1, 1⟩, 450⟩], [], by decide, by decide, by decide⟩
  have hacts : Machine.Along (step 350) (fun s a => ¬ (s.Degrades a ∧ s.FailedPending)) {}
      (failedRun ++ [.drain]) := by decide
  exact failed_by_current_request hacts rfl hfails

/-- The first episode ends with a heartbeat, but its `FAILED` report is drained
when the machine has degraded again. -/
def staleRun : List LiveAction :=
  [heartbeat 0 100, .heartbeatTimeout 450] ++ List.replicate 3 (.worker 450 true) ++
    [.drain, .worker 450 true, .worker 450 true, heartbeat 1 500, .heartbeatTimeout 850]

/-- The second episode requested a recovery under the number 3 and is failed by
the report of number 1. -/
theorem failed_by_stale_report :
    (Machine.after (step 350) {} staleRun).FailsBy ⟨.failed, ⟨1, 1⟩, 800⟩ ∧
    (Machine.after (step 350) {} staleRun).requested = some 3 ∧
    (Machine.after (step 350) {} staleRun).episode = 2 := by
  refine ⟨⟨[], [], ?_, ?_, ?_⟩, ?_, ?_⟩ <;> decide

end Traced

end SafetyCopro
