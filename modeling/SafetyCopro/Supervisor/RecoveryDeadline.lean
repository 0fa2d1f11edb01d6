import SafetyCopro.Supervisor.RecoveryWorker

/-!
The recovery worker against a clock. Time passes between any two steps, calls
of the event loop arrive at any point, and every wakeup of the condition
variable is possible. The question is how long after taking up a request the
worker can report that it failed.
-/

namespace SafetyCopro

structure Clocked where
  worker : RecoveryWorker U16 := {}
  nowMs : Nat := 0
  /-- When the last `RECOVER` was taken from the queue. -/
  dequeuedAt : Nat := 0
deriving DecidableEq

inductive ClockedInput
  | tick (ms : Nat)
  | requestRecovery (seq : U16) (ts : I64)
  | notifyHeartbeatRestored (ts : I64)
  | stop
  | worker (sent : Bool)
deriving DecidableEq

abbrev TimedEvent := Nat × WorkerEvent U16

def WorkerEvent.takesRecover {τ : Type} : WorkerEvent τ → Bool
  | .dequeued (.recover ..) => true
  | _ => false

namespace Clocked

def step (deadlineMs : U32) (c : Clocked) : ClockedInput → Clocked × List TimedEvent
  | .tick ms => ({ c with nowMs := c.nowMs + ms }, [])
  | .requestRecovery seq ts => ({ c with worker := c.worker.requestRecovery seq ts }, [])
  | .notifyHeartbeatRestored ts =>
      ({ c with worker := c.worker.notifyHeartbeatRestored ts }, [])
  | .stop => ({ c with worker := c.worker.stop }, [])
  | .worker sent =>
      let (worker, evs) := c.worker.step deadlineMs c.nowMs sent
      ({ c with
          worker := worker
          dequeuedAt := if evs.any WorkerEvent.takesRecover then c.nowMs else c.dequeuedAt },
        evs.map fun ev => (c.nowMs, ev))

/-- The last request taken from the queue is the `RECOVER` with this number, at
this time. -/
def TakenAt (log : List TimedEvent) (seq : U16) (t : Nat) : Prop :=
  ∃ before ts between, log = before ++ (t, .dequeued (.recover seq ts)) :: between ∧
    ∀ e ∈ between, ∀ req, e.2 ≠ .dequeued req

/-- Every failure is reported at least `deadlineMs` after its request was taken
from the queue, with nothing taken in between. -/
def FailsLate (deadlineMs : U32) (log : List TimedEvent) : Prop :=
  ∀ pre t rep post, log = pre ++ (t, .reported rep) :: post → rep.outcome = .failed →
    ∃ t₀, TakenAt pre rep.seq t₀ ∧ t₀ + deadlineMs.toNat ≤ t

/-- The worker has its mutex again behind the send of the command, with the recovery
still active and nothing queued, and the send took less than `deadlineMs`. -/
def BackEarly (deadlineMs : U32) (c : Clocked) : ClockedInput → Prop
  | .worker _ => c.worker.pc = .inner ∧ c.worker.queue = [] ∧ c.worker.active ≠ none ∧
      c.nowMs < c.dequeuedAt + deadlineMs.toNat
  | _ => False

instance (deadlineMs : U32) (c : Clocked) :
    (i : ClockedInput) → Decidable (BackEarly deadlineMs c i)
  | .worker _ => inferInstanceAs (Decidable (_ ∧ _ ∧ _ ∧ _))
  | .tick _ | .requestRecovery .. | .notifyHeartbeatRestored _ | .stop => instDecidableFalse

theorem TakenAt.append {log evs : List TimedEvent} {seq : U16} {t : Nat} (h : TakenAt log seq t)
    (hevs : ∀ e ∈ evs, ∀ req, e.2 ≠ .dequeued req) : TakenAt (log ++ evs) seq t := by
  obtain ⟨before, ts, between, rfl, hbetween⟩ := h
  refine ⟨before, ts, between ++ evs, by simp, fun e he => ?_⟩
  obtain he | he := List.mem_append.mp he
  · exact hbetween e he
  · exact hevs e he

theorem FailsLate.append {deadlineMs : U32} {log evs : List TimedEvent}
    (h : FailsLate deadlineMs log)
    (hevs : ∀ pre t rep post, evs = pre ++ (t, .reported rep) :: post → rep.outcome = .failed →
      ∃ t₀, TakenAt (log ++ pre) rep.seq t₀ ∧ t₀ + deadlineMs.toNat ≤ t) :
    FailsLate deadlineMs (log ++ evs) := by
  intro pre t rep post hsplit
  refine Machine.forall_split_append
    (Q := fun pre e => ∀ t rep, e = (t, .reported rep) → rep.outcome = .failed →
      ∃ t₀, TakenAt pre rep.seq t₀ ∧ t₀ + deadlineMs.toNat ≤ t)
    (fun pre e post hlog t rep he => ?_) (fun pre e post hmore t rep he => ?_)
    pre _ post hsplit t rep rfl
  · exact h pre t rep post (he ▸ hlog)
  · exact hevs pre t rep post (he ▸ hmore)

/-- What the worker and the events made so far know of each other. -/
structure Timed (deadlineMs : U32) (log : List TimedEvent) (c : Clocked) : Prop where
  late : FailsLate deadlineMs log
  active : ∀ a, c.worker.active = some a → TakenAt log a.seq c.dequeuedAt
  failing : ∀ rep, c.worker.pc = .reporting rep → rep.outcome = .failed →
    c.worker.active = none ∧
      ∃ t₀, TakenAt log rep.seq t₀ ∧ t₀ + deadlineMs.toNat ≤ c.nowMs
  parked : c.worker.pc.Parked → c.worker.active = none

theorem FailsLate.append_unreported {deadlineMs : U32} {log : List TimedEvent}
    (h : FailsLate deadlineMs log) (evs : List (WorkerEvent U16)) (t : Nat)
    (hevs : ∀ rep, .reported rep ∉ evs) :
    FailsLate deadlineMs (log ++ evs.map fun ev => (t, ev)) := by
  refine h.append fun pre t' rep post hsplit _ => ?_
  have hmem : (t', .reported rep) ∈ evs.map fun ev => (t, ev) := by simp [hsplit]
  obtain ⟨ev, hev, heq⟩ := List.mem_map.mp hmem
  obtain ⟨-, rfl⟩ := Prod.mk.inj heq
  exact absurd hev (hevs rep)

theorem any_restored (rs : List I64) :
    (rs.map fun ts => WorkerEvent.dequeued (.restored (τ := U16) ts)).any
      WorkerEvent.takesRecover = false := by
  simp [WorkerEvent.takesRecover]

theorem Timed.serve {deadlineMs : U32} {log : List TimedEvent} {c : Clocked}
    (h : Timed deadlineMs log c) (hserving : c.worker.Serving) {sent : Bool}
    (hearly : ¬ BackEarly deadlineMs c (.worker sent))
    (hstep : c.worker.step deadlineMs c.nowMs sent =
      RecoveryWorker.serve deadlineMs c.worker c.worker.queue) :
    Timed deadlineMs (log ++ (c.step deadlineMs (.worker sent)).2)
      (c.step deadlineMs (.worker sent)).1 := by
  obtain ⟨rs, hrs, ⟨hq, hserve⟩ | ⟨seq, ts, rest, hq, hserve⟩ | ⟨a, ts, rest, ha, hq, hserve⟩⟩ :=
    RecoveryWorker.serve_cases deadlineMs c.worker c.worker.queue
  · simp only [Clocked.step, hstep, hserve, any_restored, Bool.false_eq_true, if_false]
    have hlate := h.late.append_unreported (rs.map fun ts => .dequeued (.restored ts))
      c.nowMs (by simp)
    cases hactive : c.worker.active with
    | none =>
        simp only [RecoveryWorker.checkDeadline]
        exact ⟨hlate, nofun, nofun, fun _ => rfl⟩
    | some a =>
        -- nothing was queued: the recovery is given up here
        obtain rfl := hrs (by simp [hactive])
        have hinner : c.worker.pc = .inner := by
          obtain hpc | hpc | ⟨untilMs, hpc⟩ | hpc := hserving
          · cases (h.parked (by rw [hpc]; trivial)).symm.trans hactive
          · cases (h.parked (by rw [hpc]; trivial)).symm.trans hactive
          · cases (h.parked (by rw [hpc]; trivial)).symm.trans hactive
          · exact hpc
        have hdeadline : c.dequeuedAt + deadlineMs.toNat ≤ c.nowMs := by
          by_contra hlt
          exact hearly ⟨hinner, hq, by simp [hactive], Nat.not_le.mp hlt⟩
        simp only [RecoveryWorker.checkDeadline, List.isEmpty_nil, if_true, List.map_nil,
          List.append_nil]
        refine ⟨h.late, nofun, fun rep hrep _ => ⟨rfl, c.dequeuedAt, ?_, hdeadline⟩, nofun⟩
        obtain rfl := WorkerPc.reporting.inj hrep
        exact h.active a hactive
  · have hany : ((rs.map fun ts => WorkerEvent.dequeued (.restored ts)) ++
        [WorkerEvent.dequeued (.recover seq ts)]).any WorkerEvent.takesRecover = true := by
      simp [WorkerEvent.takesRecover]
    simp only [Clocked.step, hstep, hserve, hany, if_true]
    refine ⟨h.late.append_unreported _ _ (by simp), fun a ha => ?_, nofun, nofun⟩
    obtain rfl := Option.some.inj ha
    refine ⟨log ++ (rs.map fun ts => WorkerEvent.dequeued (.restored ts)).map
      fun ev => (c.nowMs, ev), ts, [], by simp, by simp⟩
  · simp only [Clocked.step, hstep, hserve]
    refine ⟨h.late.append_unreported _ _ (by simp), nofun, fun rep hrep hout => ?_, nofun⟩
    obtain rfl := WorkerPc.reporting.inj hrep
    cases hout

theorem Timed.report {deadlineMs : U32} {log : List TimedEvent} {c : Clocked}
    (h : Timed deadlineMs log c) {rep : RecoveryReport U16} (hpc : c.worker.pc = .reporting rep)
    {sent : Bool}
    (hstep : c.worker.step deadlineMs c.nowMs sent =
      ({ c.worker with pc := if rep.outcome = .failed then .top else .inner },
        [.reported rep])) :
    Timed deadlineMs (log ++ (c.step deadlineMs (.worker sent)).2)
      (c.step deadlineMs (.worker sent)).1 := by
  simp only [Clocked.step, hstep]
  refine ⟨h.late.append fun pre t rep' post hsplit hout => ?_, fun a ha => ?_,
    fun rep' hrep => ?_, fun hparked => ?_⟩
  · obtain ⟨rfl, hevent⟩ | ⟨-, hevent⟩ := List.singleton_eq_append_iff.mp hsplit
    · obtain ⟨⟨rfl, hrep⟩, -⟩ : (t = c.nowMs ∧ rep' = rep) ∧ post = [] := by
        simpa using hevent
      rw [List.append_nil, hrep]
      exact (h.failing rep hpc (hrep ▸ hout)).2
    · cases hevent
  · exact (h.active a ha).append (by simp)
  · simp only at hrep
    split at hrep <;> cases hrep
  · by_cases hout : rep.outcome = .failed
    · exact (h.failing rep hpc hout).1
    · rw [if_neg hout] at hparked
      exact hparked.elim

theorem Timed.step {deadlineMs : U32} {log : List TimedEvent} {c : Clocked} {i : ClockedInput}
    (h : Timed deadlineMs log c) (hearly : ¬ BackEarly deadlineMs c i) :
    Timed deadlineMs (log ++ (c.step deadlineMs i).2) (c.step deadlineMs i).1 := by
  cases i with
  | tick ms =>
      rw [Clocked.step, List.append_nil]
      refine ⟨h.late, h.active, fun rep hpc hout => ?_, h.parked⟩
      obtain ⟨hnone, t₀, ht, hle⟩ := h.failing rep hpc hout
      exact ⟨hnone, t₀, ht, Nat.le_add_right_of_le hle⟩
  | requestRecovery seq ts =>
      rw [Clocked.step, List.append_nil]
      exact ⟨h.late, h.active, h.failing, h.parked⟩
  | notifyHeartbeatRestored ts =>
      rw [Clocked.step, List.append_nil]
      exact ⟨h.late, h.active, h.failing, h.parked⟩
  | stop =>
      rw [Clocked.step, List.append_nil]
      exact ⟨h.late, h.active, h.failing, h.parked⟩
  | worker sent =>
      obtain ⟨pc, hparked, hparked', hstep⟩ | ⟨hserving, hstep⟩ | ⟨seq, ts, hpc, hstep⟩ |
        ⟨rep, hpc, hstep⟩ := c.worker.step_cases deadlineMs c.nowMs sent
      · have hnone := h.parked hparked'
        simp only [Clocked.step, hstep, List.map_nil, List.append_nil, List.any_nil]
        refine ⟨h.late, fun a ha => ?_, fun rep hrep => ?_, fun _ => hnone⟩
        · cases hnone.symm.trans ha
        · exact absurd hparked (by rw [show pc = .reporting rep from hrep]; exact id)
      · exact h.serve hserving hearly hstep
      · cases sent with
        | true =>
            simp only [Clocked.step, hstep, if_true]
            refine ⟨h.late.append_unreported _ _ (by simp), fun a ha => ?_,
              fun rep hrep hout => ?_, nofun⟩
            · exact (h.active a ha).append (by simp)
            · obtain rfl := WorkerPc.reporting.inj hrep
              cases hout
        | false =>
            simp only [Clocked.step, hstep, Bool.false_eq_true, if_false, List.map_nil,
              List.append_nil, List.any_nil]
            exact ⟨h.late, h.active, nofun, nofun⟩
      · exact h.report hpc hstep

/-- When every send lasts until the deadline, or has a request behind it in the queue,
no failure is reported before the deadline. -/
theorem failsLate_of_never_back_early {deadlineMs : U32} {ins : List ClockedInput}
    (h : Machine.Along (step deadlineMs) (fun c i => ¬ BackEarly deadlineMs c i) {} ins) :
    FailsLate deadlineMs (Machine.outputs (step deadlineMs) {} ins) := by
  have hstart : Timed deadlineMs [] {} := by
    refine ⟨fun pre t rep post hsplit => ?_, nofun, nofun, fun _ => rfl⟩
    simp at hsplit
  exact (Machine.outputs_of_along (P := Timed deadlineMs)
    (fun _ _ _ hs hi => hs.step hi) hstart h).late

def slowSend : List ClockedInput :=
  [.requestRecovery 1 450, .worker true, .tick 400, .worker true, .worker true, .worker true,
    .worker true]

theorem failsLate_slowSend :
    FailsLate 350 (Machine.outputs (step 350) {} slowSend) ∧
    (400, .reported ⟨.failed, 1, 800⟩) ∈ Machine.outputs (step 350) {} slowSend :=
  ⟨failsLate_of_never_back_early (by decide), by decide⟩

def fastSend : List ClockedInput :=
  [.requestRecovery 1 450, .worker true, .tick 1, .worker true, .worker true, .worker true,
    .worker true]

/-- The failure is reported in that millisecond. The worker was woken once, by
the request itself, and never waited for the deadline. -/
theorem not_failsLate_fastSend :
    (1, .reported ⟨.failed, 1, 800⟩) ∈ Machine.outputs (step 350) {} fastSend ∧
    ¬ FailsLate 350 (Machine.outputs (step 350) {} fastSend) := by
  refine ⟨by decide, fun h => ?_⟩
  obtain ⟨t₀, -, hle⟩ := h ((Machine.outputs (step 350) {} fastSend).take 3) 1
    ⟨.failed, 1, 800⟩ [] (by decide) rfl
  have hdeadline : (350 : U32).toNat = 350 := by decide
  omega

end Clocked

end SafetyCopro
