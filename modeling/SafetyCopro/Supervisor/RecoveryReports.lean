import SafetyCopro.Supervisor.RecoveryWorker

/-!
What the reports of the recovery worker say. The lock is free while the worker
sends a command or makes a report, and requests of both kinds may arrive then;
but the worker alone takes them from the queue, so every report is about the
last `RECOVER` it took.
-/

namespace SafetyCopro

inductive WorkerInput (τ : Type)
  | requestRecovery (seq : τ) (nowMs : I64)
  | notifyHeartbeatRestored (nowMs : I64)
  | stop
  -- a step of the thread; `sent` is what `send_cmd_` returns
  | run (nowMs : Int) (sent : Bool)
deriving DecidableEq, Repr

def RecoveryOutcome.Final : RecoveryOutcome → Prop
  | .sent => False
  | _ => True

variable {τ : Type}

namespace RecoveryWorker

/-- Calls of the other threads and steps of the worker. A wait with a deadline
may end at any step, so timeouts and wakeups for no reason are among them. -/
def react (deadlineMs : U32) (w : RecoveryWorker τ) :
    WorkerInput τ → RecoveryWorker τ × List (WorkerEvent τ)
  | .requestRecovery seq nowMs => (w.requestRecovery seq nowMs, [])
  | .notifyHeartbeatRestored nowMs => (w.notifyHeartbeatRestored nowMs, [])
  | .stop => (w.stop, [])
  | .run nowMs sent => w.step deadlineMs nowMs sent

/-- The last `RECOVER` taken from the queue, and what happened since. -/
def LastRecover (log : List (WorkerEvent τ)) (seq : τ) (ts : I64)
    (since : List (WorkerEvent τ)) : Prop :=
  ∃ before, log = before ++ .dequeued (.recover seq ts) :: since ∧
    ∀ seq' ts', .dequeued (.recover seq' ts') ∉ since

/-- A report as it may follow these events: it is about the last `RECOVER`,
which has no final report yet. That it was sent is said once and after the
sending; a success follows a `RESTORED`. -/
def Due (log : List (WorkerEvent τ)) (rep : RecoveryReport τ) : Prop :=
  ∃ ts since, LastRecover log rep.seq ts since ∧
    (∀ rep', .reported rep' ∈ since → ¬ rep'.outcome.Final) ∧
    match rep.outcome with
    | .sent => .sentCommand rep.seq ts ∈ since ∧ ∀ rep', .reported rep' ∉ since
    | .success => ∃ ts', .dequeued (.restored ts') ∈ since
    | .failed => True

def Disciplined (log : List (WorkerEvent τ)) : Prop :=
  ∀ pre rep post, log = pre ++ .reported rep :: post → Due pre rep

variable {log evs : List (WorkerEvent τ)} {w : RecoveryWorker τ} {deadlineMs : U32}

theorem LastRecover.append {seq : τ} {ts : I64} {since : List (WorkerEvent τ)}
    (h : LastRecover log seq ts since) (hevs : ∀ seq' ts', .dequeued (.recover seq' ts') ∉ evs) :
    LastRecover (log ++ evs) seq ts (since ++ evs) := by
  obtain ⟨before, rfl, hsince⟩ := h
  refine ⟨before, by simp, fun seq' ts' hmem => ?_⟩
  obtain hmem | hmem := List.mem_append.mp hmem
  · exact hsince seq' ts' hmem
  · exact hevs seq' ts' hmem

theorem Disciplined.append (h : Disciplined log)
    (hevs : ∀ pre rep post, evs = pre ++ .reported rep :: post → Due (log ++ pre) rep) :
    Disciplined (log ++ evs) := by
  intro pre rep post hsplit
  refine Machine.forall_split_append (Q := fun pre e => ∀ rep, e = .reported rep → Due pre rep)
    (fun pre e post hlog rep he => ?_) (fun pre e post hmore rep he => ?_)
    pre _ post hsplit rep rfl
  · exact h pre rep post (he ▸ hlog)
  · exact hevs pre rep post (he ▸ hmore)

theorem Disciplined.append_unreported (h : Disciplined log) (hevs : ∀ rep, .reported rep ∉ evs) :
    Disciplined (log ++ evs) := by
  refine h.append fun pre rep post hsplit => ?_
  exact absurd (hsplit ▸ List.mem_append_right _ List.mem_cons_self) (hevs rep)

/-- The last `RECOVER` has this number and no final report. -/
def Open (log : List (WorkerEvent τ)) (seq : τ) : Prop :=
  ∃ ts since, LastRecover log seq ts since ∧
    ∀ rep, .reported rep ∈ since → ¬ rep.outcome.Final

theorem Open.append {seq : τ} (h : Open log seq)
    (hevs : ∀ seq' ts', .dequeued (.recover seq' ts') ∉ evs)
    (hreps : ∀ rep, .reported rep ∈ evs → ¬ rep.outcome.Final) : Open (log ++ evs) seq := by
  obtain ⟨ts, since, hlast, hsince⟩ := h
  refine ⟨ts, since ++ evs, hlast.append hevs, fun rep hmem => ?_⟩
  obtain hmem | hmem := List.mem_append.mp hmem
  · exact hsince rep hmem
  · exact hreps rep hmem

/-- What the worker and the events made so far know of each other. -/
structure Reporting (log : List (WorkerEvent τ)) (w : RecoveryWorker τ) : Prop where
  disciplined : Disciplined log
  active : ∀ a, w.active = some a → Open log a.seq
  sending : ∀ seq ts, w.pc = .sending seq ts →
    ∃ since, LastRecover log seq ts since ∧ ∀ rep, .reported rep ∉ since
  reporting : ∀ rep, w.pc = .reporting rep → Due log rep ∧ (rep.outcome.Final → w.active = none)

namespace Reporting

theorem congr (h : Reporting log w) {w' : RecoveryWorker τ} (hactive : w'.active = w.active)
    (hpc : w'.pc = w.pc) : Reporting log w' := by
  obtain ⟨hlog, hopen, hsending, hreporting⟩ := h
  rw [← hactive] at hopen hreporting
  rw [← hpc] at hsending hreporting
  exact ⟨hlog, hopen, hsending, hreporting⟩

/-- The worker is neither sending nor reporting behind the step. -/
theorem park (h : Reporting log w) {pc : WorkerPc τ} (hsending : ∀ seq ts, pc ≠ .sending seq ts)
    (hreporting : ∀ rep, pc ≠ .reporting rep) : Reporting log { w with pc := pc } :=
  ⟨h.disciplined, h.active, fun seq ts hpc => absurd hpc (hsending seq ts),
    fun rep hpc => absurd hpc (hreporting rep)⟩

theorem serve (h : Reporting log w) (deadlineMs : U32) :
    Reporting (log ++ (RecoveryWorker.serve deadlineMs w w.queue).2)
      (RecoveryWorker.serve deadlineMs w w.queue).1 := by
  obtain ⟨rs, hrs, ⟨hq, hserve⟩ | ⟨seq, ts, rest, hq, hserve⟩ | ⟨a, ts, rest, ha, hq, hserve⟩⟩ :=
    RecoveryWorker.serve_cases deadlineMs w w.queue
  · rw [hserve]
    have hlog : Disciplined (log ++ rs.map fun ts => .dequeued (.restored ts)) :=
      h.disciplined.append_unreported (by simp)
    cases hactive : w.active with
    | none =>
        simp only [RecoveryWorker.checkDeadline]
        exact ⟨hlog, by simp, by simp, by simp⟩
    | some a =>
        -- nothing was queued: the recovery is given up
        obtain rfl := hrs (by simp [hactive])
        obtain ⟨ts, since, hlast, hsince⟩ := h.active a hactive
        simp only [RecoveryWorker.checkDeadline, List.isEmpty_nil, if_true, List.map_nil,
          List.append_nil]
        refine ⟨h.disciplined, by simp, by simp, fun rep hpc => ⟨?_, fun _ => rfl⟩⟩
        obtain rfl := WorkerPc.reporting.inj hpc
        exact ⟨ts, since, hlast, hsince, trivial⟩
  · rw [hserve]
    have hlast : LastRecover (log ++ ((rs.map fun ts => .dequeued (.restored ts)) ++
        [.dequeued (.recover seq ts)])) seq ts [] :=
      ⟨log ++ rs.map fun ts => .dequeued (.restored ts), by simp, by simp⟩
    refine ⟨h.disciplined.append_unreported (by simp), fun a ha => ?_, fun seq' ts' hpc => ?_,
      by simp⟩
    · obtain rfl := Option.some.inj ha
      exact ⟨ts, [], hlast, by simp⟩
    · obtain ⟨rfl, rfl⟩ := WorkerPc.sending.inj hpc
      exact ⟨[], hlast, by simp⟩
  · rw [hserve]
    obtain ⟨ts', since, hlast, hsince⟩ := h.active a ha
    refine ⟨h.disciplined.append_unreported (by simp), by simp, by simp,
      fun rep hpc => ⟨?_, fun _ => rfl⟩⟩
    obtain rfl := WorkerPc.reporting.inj hpc
    refine ⟨ts', since ++ [.dequeued (.restored ts)], hlast.append (by simp), ?_, ts, by simp⟩
    intro rep hmem
    exact hsince rep (by simpa using hmem)

theorem send (h : Reporting log w) {seq : τ} {ts : I64} (hpc : w.pc = .sending seq ts) :
    Reporting (log ++ [.sentCommand seq ts]) { w with pc := .reporting ⟨.sent, seq, ts⟩ } := by
  obtain ⟨since, hlast, hsince⟩ := h.sending seq ts hpc
  refine ⟨h.disciplined.append_unreported (by simp), fun a ha => ?_, by simp,
    fun rep hrep => ?_⟩
  · exact (h.active a ha).append (by simp) (by simp)
  · obtain rfl := WorkerPc.reporting.inj hrep
    refine ⟨⟨ts, since ++ [.sentCommand seq ts], hlast.append (by simp), ?_, by simp, ?_⟩,
      False.elim⟩
    · intro rep hmem
      exact absurd (by simpa using hmem) (hsince rep)
    · intro rep hmem
      exact hsince rep (by simpa using hmem)

theorem report (h : Reporting log w) {rep : RecoveryReport τ} (hpc : w.pc = .reporting rep) :
    Reporting (log ++ [.reported rep])
      { w with pc := if rep.outcome = .failed then .top else .inner } := by
  obtain ⟨hdue, hfinal⟩ := h.reporting rep hpc
  refine ⟨h.disciplined.append fun pre rep' post hsplit => ?_, fun a ha => ?_,
    fun seq ts hpc' => ?_, fun rep' hpc' => ?_⟩
  · obtain ⟨rfl, hevent⟩ | ⟨-, hevent⟩ := List.singleton_eq_append_iff.mp hsplit
    · obtain ⟨hrep, -⟩ := List.cons.inj hevent
      obtain rfl := WorkerEvent.reported.inj hrep
      rwa [List.append_nil]
    · cases hevent
  · refine (h.active a ha).append (by simp) fun rep' hmem hrep' => ?_
    obtain rfl : rep' = rep := by simpa using hmem
    rw [hfinal hrep'] at ha
    cases ha
  · dsimp only at hpc'
    split at hpc' <;> cases hpc'
  · dsimp only at hpc'
    split at hpc' <;> cases hpc'

theorem run (h : Reporting log w) (deadlineMs : U32) (nowMs : Int) (sent : Bool) :
    Reporting (log ++ (w.step deadlineMs nowMs sent).2) (w.step deadlineMs nowMs sent).1 := by
  obtain ⟨pc, hparked, -, hstep⟩ | ⟨-, hstep⟩ | ⟨seq, ts, hpc, hstep⟩ | ⟨rep, hpc, hstep⟩ :=
    w.step_cases deadlineMs nowMs sent <;> rw [hstep]
  · rw [List.append_nil]
    exact h.park (fun seq ts hpc => by rw [hpc] at hparked; exact hparked)
      (fun rep hpc => by rw [hpc] at hparked; exact hparked)
  · exact h.serve deadlineMs
  · cases sent with
    | true => exact h.send hpc
    | false =>
        rw [if_neg Bool.false_ne_true, List.append_nil]
        exact h.park (by simp) (by simp)
  · exact h.report hpc

theorem react (h : Reporting log w) (deadlineMs : U32) (i : WorkerInput τ) :
    Reporting (log ++ (w.react deadlineMs i).2) (w.react deadlineMs i).1 := by
  cases i with
  | run nowMs sent => exact h.run deadlineMs nowMs sent
  | requestRecovery seq nowMs =>
      rw [RecoveryWorker.react, List.append_nil]
      exact h.congr rfl rfl
  | notifyHeartbeatRestored nowMs =>
      rw [RecoveryWorker.react, List.append_nil]
      exact h.congr rfl rfl
  | stop =>
      rw [RecoveryWorker.react, List.append_nil]
      exact h.congr rfl rfl

end Reporting

theorem reporting_init : Reporting ([] : List (WorkerEvent τ)) {} := by
  refine ⟨fun pre rep post hsplit => ?_, by simp, by simp, by simp⟩
  simp at hsplit

/-- Over any calls, send results, timeouts and wakeups, every report of the
worker is due when it is made. -/
theorem reports_disciplined (deadlineMs : U32) (inputs : List (WorkerInput τ)) :
    Disciplined (Machine.outputs (RecoveryWorker.react deadlineMs) {} inputs) :=
  (Machine.run_history (P := fun _ log w => Reporting log w)
    (fun _ _ _ i h => h.react deadlineMs i) reporting_init inputs).disciplined

-- a second request comes while the first is being sent, and ends it
example :
    Machine.outputs (RecoveryWorker.react 500) {}
      [.requestRecovery 1 0, .run 0 true, .requestRecovery 2 0, .run 0 true, .run 0 true,
       .run 0 true, .run 0 true, .run 0 true, .notifyHeartbeatRestored 5, .run 0 true,
       .run 0 true] =
      ([.dequeued (.recover 1 0), .sentCommand 1 0, .reported ⟨.sent, 1, 0⟩,
        .dequeued (.recover 2 0), .sentCommand 2 0, .reported ⟨.sent, 2, 0⟩,
        .dequeued (.restored 5), .reported ⟨.success, 2, 5⟩] : List (WorkerEvent Nat)) := by
  decide

end RecoveryWorker

end SafetyCopro
