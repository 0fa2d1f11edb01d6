import SafetyCopro.Supervisor.Frames
import SafetyCopro.Lib.Machine

/-!
The recovery worker thread, `recovery_worker.cpp`. The worker only passes a
request's sequence number along, from the queue to the command and the
reports, so it is stated for any type `τ` of sequence numbers.

The worker holds its mutex from each lock to the next unlock or wait, and
nothing else reads or writes its fields meanwhile. A step is one such section,
or one of the calls made while unlocked; the program counter names the point
between two steps. `stopping_` is only set once the event loop has returned.
-/

namespace SafetyCopro

inductive RecoveryOutcome
  | sent | success | failed
deriving DecidableEq, Repr

structure RecoveryReport (τ : Type) where
  outcome : RecoveryOutcome
  seq : τ
  tsMs : I64
deriving DecidableEq, Repr

/-- An entry of the request queue, by its kind. A `RESTORED` request carries
the sequence number 0, which is never read. -/
inductive RecoveryRequest (τ : Type)
  | recover (seq : τ) (tsMs : I64)
  | restored (tsMs : I64)
deriving DecidableEq, Repr

/-- `active_seq_` and `deadline_at_ms_`, which are only read while `active_`. -/
structure ActiveRecovery (τ : Type) where
  seq : τ
  deadlineAtMs : I64
deriving DecidableEq, Repr

inductive WorkerPc (τ : Type)
  -- at the head of `for (;;)`
  | top
  -- in `cv_.wait` with the predicate
  | waiting
  -- in `cv_.wait_until`, which has no predicate
  | waitingUntil (untilMs : Int)
  -- unlocked, before `send_cmd_`
  | sending (seq : τ) (tsMs : I64)
  -- unlocked, before `report_`
  | reporting (rep : RecoveryReport τ)
  -- unlocked, before the `lk.lock()` that ends a turn of the inner loop
  | inner
  | stopped
deriving DecidableEq, Repr

def WorkerPc.Parked {τ : Type} : WorkerPc τ → Prop
  | .sending .. => False
  | .reporting _ => False
  | .inner => False
  | _ => True

structure RecoveryWorker (τ : Type) where
  queue : List (RecoveryRequest τ) := []
  active : Option (ActiveRecovery τ) := none
  stopping : Bool := false
  pc : WorkerPc τ := .top
deriving DecidableEq, Repr

/-- What a step of the worker does that can be seen from outside. -/
inductive WorkerEvent (τ : Type)
  | dequeued (req : RecoveryRequest τ)
  | sentCommand (seq : τ) (tsMs : I64)
  | reported (rep : RecoveryReport τ)
deriving DecidableEq, Repr

namespace RecoveryWorker
variable {τ : Type}

def requestRecovery (w : RecoveryWorker τ) (seq : τ) (nowMs : I64) : RecoveryWorker τ :=
  { w with queue := w.queue ++ [.recover seq nowMs] }

def notifyHeartbeatRestored (w : RecoveryWorker τ) (nowMs : I64) : RecoveryWorker τ :=
  { w with queue := w.queue ++ [.restored nowMs] }

def stop (w : RecoveryWorker τ) : RecoveryWorker τ := { w with stopping := true }

def checkDeadline (w : RecoveryWorker τ) : RecoveryWorker τ :=
  match w.active with
  | some a =>
      if w.queue.isEmpty then
        { w with active := none, pc := .reporting ⟨.failed, a.seq, a.deadlineAtMs⟩ }
      else { w with pc := .top }
  | none => { w with pc := .top }

/-- The inner loop on the queue, with the lock held, up to the next unlock. -/
def serve (deadlineMs : U32) (w : RecoveryWorker τ) :
    List (RecoveryRequest τ) → RecoveryWorker τ × List (WorkerEvent τ)
  | [] => (checkDeadline { w with queue := [] }, [])
  | .recover seq ts :: rest =>
      ({ w with
          queue := rest
          active := some ⟨seq, ts + deadlineMs.setWidth 64⟩
          pc := .sending seq ts },
        [.dequeued (.recover seq ts)])
  | .restored ts :: rest =>
      match w.active with
      | some a =>
          ({ w with queue := rest, active := none, pc := .reporting ⟨.success, a.seq, ts⟩ },
            [.dequeued (.restored ts)])
      | none =>
          let (w', evs) := serve deadlineMs w rest
          (w', .dequeued (.restored ts) :: evs)

/-- One step of `RecoveryWorker::run` at time `nowMs`. `sent` is what
`send_cmd_` returns, when the step is that call. -/
def step (deadlineMs : U32) (nowMs : Int) (sent : Bool) (w : RecoveryWorker τ) :
    RecoveryWorker τ × List (WorkerEvent τ) :=
  match w.pc with
  | .top =>
      if w.stopping then ({ w with pc := .stopped }, [])
      else if w.queue.isEmpty then
        if w.active.isSome then ({ w with pc := .waitingUntil (nowMs + deadlineMs.toNat) }, [])
        else ({ w with pc := .waiting }, [])
      else serve deadlineMs w w.queue
  | .waiting =>
      if w.stopping then ({ w with pc := .stopped }, [])
      else if w.queue.isEmpty then (w, [])
      else serve deadlineMs w w.queue
  | .waitingUntil _ =>
      -- it may return at the deadline, on a notify or for no reason at all
      if w.stopping then ({ w with pc := .stopped }, [])
      else serve deadlineMs w w.queue
  | .sending seq ts =>
      if sent then ({ w with pc := .reporting ⟨.sent, seq, ts⟩ }, [.sentCommand seq ts])
      else ({ w with pc := .inner }, [])
  | .reporting rep =>
      ({ w with pc := if rep.outcome = .failed then .top else .inner }, [.reported rep])
  | .inner => serve deadlineMs w w.queue
  | .stopped => (w, [])

/-! ### What a step does -/

/-- What the inner loop does up to the next unlock: it drops the `RESTORED`
requests `rs` that find no recovery active, and then runs out of requests, or
takes up a `RECOVER`, or ends the active recovery with a `RESTORED`. -/
theorem serve_cases (deadlineMs : U32) (w : RecoveryWorker τ) (q : List (RecoveryRequest τ)) :
    ∃ rs : List I64, (w.active ≠ none → rs = []) ∧
      ((q = rs.map .restored ∧
          serve deadlineMs w q =
            (checkDeadline { w with queue := [] }, rs.map fun ts => .dequeued (.restored ts))) ∨
        (∃ seq ts rest, q = rs.map .restored ++ .recover seq ts :: rest ∧
          serve deadlineMs w q =
            ({ w with
                queue := rest
                active := some ⟨seq, ts + deadlineMs.setWidth 64⟩
                pc := .sending seq ts },
              (rs.map fun ts => .dequeued (.restored ts)) ++ [.dequeued (.recover seq ts)])) ∨
        (∃ a ts rest, w.active = some a ∧ q = .restored ts :: rest ∧
          serve deadlineMs w q =
            ({ w with
                queue := rest
                active := none
                pc := .reporting ⟨.success, a.seq, ts⟩ },
              [.dequeued (.restored ts)]))) := by
  induction q with
  | nil => exact ⟨[], fun _ => rfl, Or.inl ⟨rfl, rfl⟩⟩
  | cons req q ih =>
      cases req with
      | recover seq ts =>
          exact ⟨[], fun _ => rfl, Or.inr (Or.inl ⟨seq, ts, q, rfl, rfl⟩)⟩
      | restored ts =>
          cases hactive : w.active with
          | some a =>
              refine ⟨[], fun _ => rfl, Or.inr (Or.inr ⟨a, ts, q, rfl, rfl, ?_⟩)⟩
              simp only [serve, hactive]
          | none =>
              obtain ⟨rs, -, ⟨hq, hserve⟩ | ⟨seq, ts', rest, hq, hserve⟩ | ⟨a, -, -, ha, -⟩⟩ := ih
              · refine ⟨ts :: rs, fun h => absurd rfl h, Or.inl ⟨by rw [hq]; rfl, ?_⟩⟩
                simp only [serve, hactive, hserve, List.map_cons]
              · refine ⟨ts :: rs, fun h => absurd rfl h,
                  Or.inr (Or.inl ⟨seq, ts', rest, by rw [hq]; rfl, ?_⟩)⟩
                simp only [serve, hactive, hserve, List.map_cons, List.cons_append]
              · rw [hactive] at ha
                cases ha

def Serving (w : RecoveryWorker τ) : Prop :=
  w.pc = .top ∨ w.pc = .waiting ∨ (∃ untilMs, w.pc = .waitingUntil untilMs) ∨ w.pc = .inner

/-- A step moves the program counter only, or serves the queue, or is one of
the two calls made while unlocked. -/
theorem step_cases (deadlineMs : U32) (nowMs : Int) (sent : Bool) (w : RecoveryWorker τ) :
    (∃ pc : WorkerPc τ, pc.Parked ∧ w.pc.Parked ∧
        w.step deadlineMs nowMs sent = ({ w with pc := pc }, [])) ∨
      (w.Serving ∧ w.step deadlineMs nowMs sent = serve deadlineMs w w.queue) ∨
      (∃ seq ts, w.pc = .sending seq ts ∧ w.step deadlineMs nowMs sent =
        if sent then ({ w with pc := .reporting ⟨.sent, seq, ts⟩ }, [.sentCommand seq ts])
        else ({ w with pc := .inner }, [])) ∨
      (∃ rep, w.pc = .reporting rep ∧ w.step deadlineMs nowMs sent =
        ({ w with pc := if rep.outcome = .failed then .top else .inner }, [.reported rep])) := by
  obtain ⟨queue, active, stopping, pc⟩ := w
  cases pc with
  | top =>
      simp only [step]
      split
      · exact Or.inl ⟨.stopped, trivial, trivial, rfl⟩
      split
      · split
        · exact Or.inl ⟨.waitingUntil _, trivial, trivial, rfl⟩
        · exact Or.inl ⟨.waiting, trivial, trivial, rfl⟩
      · exact Or.inr (Or.inl ⟨Or.inl rfl, rfl⟩)
  | waiting =>
      simp only [step]
      split
      · exact Or.inl ⟨.stopped, trivial, trivial, rfl⟩
      split
      · exact Or.inl ⟨.waiting, trivial, trivial, rfl⟩
      · exact Or.inr (Or.inl ⟨Or.inr (Or.inl rfl), rfl⟩)
  | waitingUntil untilMs =>
      simp only [step]
      split
      · exact Or.inl ⟨.stopped, trivial, trivial, rfl⟩
      · exact Or.inr (Or.inl ⟨Or.inr (Or.inr (Or.inl ⟨untilMs, rfl⟩)), rfl⟩)
  | sending seq ts => exact Or.inr (Or.inr (Or.inl ⟨seq, ts, rfl, rfl⟩))
  | reporting rep => exact Or.inr (Or.inr (Or.inr ⟨rep, rfl, rfl⟩))
  | inner => exact Or.inr (Or.inl ⟨Or.inr (Or.inr (Or.inr rfl)), rfl⟩)
  | stopped => exact Or.inl ⟨.stopped, trivial, trivial, rfl⟩

end RecoveryWorker

end SafetyCopro
