import SafetyCopro.Supervisor.EventLoop
import SafetyCopro.Supervisor.RecoveryTickets

/-!
The live supervisor, `run_live` of `main.cpp`: the event loop and the recovery
worker, joined by the request queue and the report queue. The scheduler and
the environment choose the next action. `Traced` is the same system with each
request tagged by the episode it was made for; taking the tags off gives back
the supervisor.
-/

namespace SafetyCopro

inductive LiveAction
  -- one turn of the loop of `process_frames`
  | frame (f : ParsedFrame)
  | heartbeatTimeout (nowMs : I64)
  -- one step of the worker thread; `sent` is the result of its `send_cmd_`
  | worker (nowMs : Int) (sent : Bool)
  | drain
deriving DecidableEq

/-- The frame the worker hands to `send_cmd_`. -/
def recoveryCommand (seq : U16) (ts : I64) : List U8 :=
  buildCommand seq (ts.setWidth 32) safetyCmdRequestRecovery safetyFaultNone 0 0

def WorkerEvent.effect : WorkerEvent U16 → Option Effect
  | .sentCommand seq ts => some (.sendOut (recoveryCommand seq ts))
  | _ => none

def WorkerEvent.report {τ : Type} : WorkerEvent τ → Option (RecoveryReport τ)
  | .reported rep => some rep
  | _ => none

theorem WorkerEvent.mem_filterMap_report {τ : Type} {evs : List (WorkerEvent τ)}
    {rep : RecoveryReport τ} : rep ∈ evs.filterMap WorkerEvent.report ↔ .reported rep ∈ evs := by
  rw [List.mem_filterMap]
  refine ⟨fun ⟨ev, hev, hrep⟩ => ?_, fun h => ⟨_, h, rfl⟩⟩
  cases ev with
  | reported rep' =>
      obtain rfl : rep' = rep := Option.some.inj hrep
      exact hev
  | _ => cases hrep

structure Supervisor where
  loop : EventLoop := {}
  worker : RecoveryWorker U16 := {}
  /-- `reports_`, filled by `post_recovery_report`. -/
  reports : List (RecoveryReport U16) := []
deriving DecidableEq

namespace Supervisor

def perform (s : Supervisor) : Effect → Supervisor
  | .requestRecovery seq nowMs => { s with worker := s.worker.requestRecovery seq nowMs }
  | .notifyHeartbeatRestored nowMs =>
      { s with worker := s.worker.notifyHeartbeatRestored nowMs }
  | _ => s

def carry (s : Supervisor) (r : EventLoop × List Effect) : Supervisor × List Effect :=
  (r.2.foldl perform { s with loop := r.1 }, r.2)

def step (deadlineMs : U32) (s : Supervisor) : LiveAction → Supervisor × List Effect
  | .frame f => s.carry (s.loop.processFrame f)
  | .heartbeatTimeout nowMs => s.carry (s.loop.onHeartbeatTimeout nowMs)
  | .worker nowMs sent =>
      let (worker, evs) := s.worker.step deadlineMs nowMs sent
      ({ s with worker := worker, reports := s.reports ++ evs.filterMap WorkerEvent.report },
        evs.filterMap WorkerEvent.effect)
  | .drain => { s with reports := [] }.carry (s.loop.drainRecoveryReports s.reports)

end Supervisor

/-! ### Episodes -/

/-- A request, and the number of the degradation it was made for. -/
structure Ticket where
  seq : U16
  episode : Nat
deriving DecidableEq, Repr

structure Traced where
  loop : EventLoop := {}
  worker : RecoveryWorker Ticket := {}
  reports : List (RecoveryReport Ticket) := []
  /-- How often the machine went from `HEALTHY` to `DEGRADED`. -/
  episode : Nat := 0
  /-- The number passed to `request_recovery` in this episode. -/
  requested : Option U16 := none
deriving DecidableEq

def TransitionResult.Degrades (r : TransitionResult) : Prop :=
  r.fromState = .healthy ∧ r.toState = .degraded

instance (r : TransitionResult) : Decidable r.Degrades := inferInstanceAs (Decidable (_ ∧ _))

namespace Traced

def perform (s : Traced) : Effect → Traced
  | .applied r =>
      if r.Degrades then { s with episode := s.episode + 1, requested := none } else s
  | .requestRecovery seq nowMs =>
      { s with
        worker := s.worker.requestRecovery ⟨seq, s.episode⟩ nowMs
        requested := some seq }
  | .notifyHeartbeatRestored nowMs =>
      { s with worker := s.worker.notifyHeartbeatRestored nowMs }
  | _ => s

def carry (s : Traced) (r : EventLoop × List Effect) : Traced × List Effect :=
  (r.2.foldl perform { s with loop := r.1 }, r.2)

def step (deadlineMs : U32) (s : Traced) : LiveAction → Traced × List Effect
  | .frame f => s.carry (s.loop.processFrame f)
  | .heartbeatTimeout nowMs => s.carry (s.loop.onHeartbeatTimeout nowMs)
  | .worker nowMs sent =>
      let (worker, evs) := s.worker.step deadlineMs nowMs sent
      ({ s with worker := worker, reports := s.reports ++ evs.filterMap WorkerEvent.report },
        (evs.map (WorkerEvent.map Ticket.seq)).filterMap WorkerEvent.effect)
  | .drain =>
      { s with reports := [] }.carry
        (s.loop.drainRecoveryReports (s.reports.map (RecoveryReport.map Ticket.seq)))

def erase (s : Traced) : Supervisor where
  loop := s.loop
  worker := s.worker.map Ticket.seq
  reports := s.reports.map (RecoveryReport.map Ticket.seq)

theorem erase_perform (s : Traced) (eff : Effect) :
    (s.perform eff).erase = s.erase.perform eff := by
  cases eff with
  | applied r =>
      rw [perform]
      split <;> rfl
  | requestRecovery seq nowMs =>
      simp only [perform, erase, Supervisor.perform, RecoveryWorker.map_requestRecovery]
  | notifyHeartbeatRestored nowMs =>
      simp only [perform, erase, Supervisor.perform, RecoveryWorker.map_notifyHeartbeatRestored]
  | _ => rfl

theorem erase_carry (s : Traced) (r : EventLoop × List Effect) :
    ((s.carry r).1.erase, (s.carry r).2) = s.erase.carry r := by
  have hfold : ∀ (effs : List Effect) (s : Traced),
      (effs.foldl perform s).erase = effs.foldl Supervisor.perform s.erase := by
    intro effs
    induction effs with
    | nil => intro s; rfl
    | cons eff effs ih =>
        intro s
        rw [List.foldl_cons, List.foldl_cons, ih, erase_perform]
  rw [carry, hfold]
  rfl

theorem filterMap_report_map (evs : List (WorkerEvent Ticket)) :
    (evs.map (WorkerEvent.map Ticket.seq)).filterMap WorkerEvent.report =
      (evs.filterMap WorkerEvent.report).map (RecoveryReport.map Ticket.seq) := by
  rw [List.filterMap_map, List.map_filterMap]
  refine List.filterMap_congr fun ev _ => ?_
  cases ev <;> rfl

/-- The tags have no influence: a step of the traced system is a step of the
supervisor, with the same effects. -/
theorem erase_step (deadlineMs : U32) (s : Traced) (a : LiveAction) :
    ((s.step deadlineMs a).1.erase, (s.step deadlineMs a).2) = s.erase.step deadlineMs a := by
  cases a with
  | frame f => exact s.erase_carry _
  | heartbeatTimeout nowMs => exact s.erase_carry _
  | worker nowMs sent =>
      simp only [step, Supervisor.step, erase, RecoveryWorker.map_step, List.map_append,
        filterMap_report_map]
  | drain => exact erase_carry { s with reports := [] } _

end Traced

end SafetyCopro
