import SafetyCopro.Lib.Machine
import SafetyCopro.Supervisor.EventLog

/-!
The logger thread, `LoggerWorker`. Any thread may push an event; the worker
swaps the whole queue out under the lock and writes it while unlocked, and a
thread that stops the logger waits for the worker to return. A push is the
section that holds the lock, and the `notify_one` behind it comes at any time
later; the condition variable may also wake the worker for no reason.
-/

namespace SafetyCopro

inductive LoggerPc
  -- before the predicate of `cv_.wait` is read under the lock
  | checking
  | asleep
  -- unlocked, with this much of the batch to write
  | writing (batch : List LogEvent)
  | returned
deriving DecidableEq

inductive StopPc
  | notCalled
  -- `stopping_` is set, `cv_.notify_all` comes next
  | notifying
  | joining
  | returned
deriving DecidableEq, Repr

/-- The logger behind a `start` that opened the file; `out` is what the file
holds. -/
structure LoggerWorker where
  queue : List LogEvent := []
  stopping : Bool := false
  out : Text := []
  pc : LoggerPc := .checking
  stopPc : StopPc := .notCalled
deriving DecidableEq

inductive LoggerInput
  | push (ev : LogEvent)
  -- a wakeup, by the end of a push or for no reason
  | notify
  -- a step of the worker
  | run
  -- a step of the thread that calls `stop`
  | stop
deriving DecidableEq

namespace LoggerWorker

def push (w : LoggerWorker) (ev : LogEvent) : LoggerWorker := { w with queue := w.queue ++ [ev] }

def notify (w : LoggerWorker) : LoggerWorker :=
  { w with pc := if w.pc = .asleep then .checking else w.pc }

/-- A step of `LoggerWorker::run`, with the event that it writes. -/
def run (w : LoggerWorker) : LoggerWorker × List LogEvent :=
  match w.pc with
  | .checking =>
      if w.stopping || !w.queue.isEmpty then
        if w.stopping && w.queue.isEmpty then ({ w with queue := [], pc := .returned }, [])
        else ({ w with queue := [], pc := .writing w.queue }, [])
      else ({ w with pc := .asleep }, [])
  | .asleep => (w, [])
  | .writing [] => ({ w with pc := .checking }, [])
  | .writing (ev :: batch) =>
      ({ w with out := w.out ++ (serializeEvent ev ++ [Text.newline]), pc := .writing batch }, [ev])
  | .returned => (w, [])

/-- A step of `stop`. Once the worker is joined the file is closed. -/
def stop (w : LoggerWorker) : LoggerWorker :=
  match w.stopPc with
  | .notCalled =>
      if w.stopping then { w with stopPc := .returned }
      else { w with stopping := true, stopPc := .notifying }
  | .notifying => { w.notify with stopPc := .joining }
  | .joining => if w.pc = .returned then { w with stopPc := .returned } else w
  | .returned => w

def step (w : LoggerWorker) : LoggerInput → LoggerWorker × List LogEvent
  | .push ev => (w.push ev, [])
  | .notify => (w.notify, [])
  | .run => w.run
  | .stop => (w.stop, [])

end LoggerWorker

/-- The events in the order in which they entered the queue. -/
def pushes (inputs : List LoggerInput) : List LogEvent :=
  inputs.filterMap fun
    | .push ev => some ev
    | _ => none

theorem pushes_append (inputs more : List LoggerInput) :
    pushes (inputs ++ more) = pushes inputs ++ pushes more := List.filterMap_append

theorem eventsJsonl_append (log more : List LogEvent) :
    eventsJsonl (log ++ more) = eventsJsonl log ++ eventsJsonl more := List.flatMap_append

def LoggerPc.batch : LoggerPc → List LogEvent
  | .writing batch => batch
  | _ => []

/-- What came before the call of `stop`. -/
def beforeStop (inputs : List LoggerInput) : List LoggerInput := inputs.takeWhile (· ≠ .stop)

theorem beforeStop_concat {inputs : List LoggerInput} (h : .stop ∈ inputs) (a : LoggerInput) :
    beforeStop (inputs ++ [a]) = beforeStop inputs := by
  rw [beforeStop, List.takeWhile_append, if_neg]
  · rfl
  · intro hlen
    have hall := List.takeWhile_eq_self_iff.mp
      ((List.takeWhile_prefix _).eq_of_length hlen) .stop h
    simp at hall

namespace LoggerWorker
variable {inputs : List LoggerInput} {written : List LogEvent} {w : LoggerWorker}

/-- What was pushed is written, in the batch or in the queue, in this order. -/
structure Kept (inputs : List LoggerInput) (written : List LogEvent) (w : LoggerWorker) :
    Prop where
  conserved : pushes inputs = written ++ w.pc.batch ++ w.queue
  file : w.out = eventsJsonl written
  called : w.stopping = true ↔ w.stopPc ≠ .notCalled
  seen : w.stopping = true ↔ .stop ∈ inputs
  drained : w.pc = .returned → w.stopping = true ∧ pushes (beforeStop inputs) <+: written
  joined : w.stopPc = .returned → w.pc = .returned
  awake : w.stopPc = .joining → w.pc ≠ .asleep

theorem kept_init : Kept [] [] {} := by
  refine ⟨rfl, rfl, ?_, ?_, ?_, ?_, ?_⟩ <;> simp

theorem Kept.drained_concat (h : Kept inputs written w) (a : LoggerInput)
    (hpc : w.pc = .returned) :
    w.stopping = true ∧ pushes (beforeStop (inputs ++ [a])) <+: written := by
  obtain ⟨hstopping, hwritten⟩ := h.drained hpc
  rw [beforeStop_concat (h.seen.mp hstopping)]
  exact ⟨hstopping, hwritten⟩

theorem Kept.push (h : Kept inputs written w) (ev : LogEvent) :
    Kept (inputs ++ [.push ev]) written (w.push ev) := by
  refine ⟨?_, h.file, h.called, ?_, h.drained_concat _, h.joined, h.awake⟩
  · rw [pushes_append, h.conserved, List.append_assoc]
    rfl
  · rw [List.mem_append, ← h.seen]
    simp [LoggerWorker.push]

/-- The history of an input that is neither a push nor a step of `stop`. -/
theorem Kept.input (h : Kept inputs written w) {a : LoggerInput} (ha : pushes [a] = [])
    (hstop : a ≠ .stop) : Kept (inputs ++ [a]) written w := by
  refine ⟨?_, h.file, h.called, ?_, h.drained_concat _, h.joined, h.awake⟩
  · rw [pushes_append, ha, List.append_nil]
    exact h.conserved
  · rw [List.mem_append, ← h.seen, List.mem_singleton, or_iff_left (Ne.symm hstop)]

theorem notify_pc (w : LoggerWorker) :
    w.notify.pc = w.pc ∨ w.pc = .asleep ∧ w.notify.pc = .checking := by
  by_cases hpc : w.pc = .asleep
  · exact Or.inr ⟨hpc, if_pos hpc⟩
  · exact Or.inl (if_neg hpc)

theorem notify_awake (w : LoggerWorker) : w.notify.pc ≠ .asleep := by
  obtain hsame | ⟨-, hpc⟩ := w.notify_pc
  · intro hasleep
    rw [notify, if_pos (hsame ▸ hasleep)] at hasleep
    cases hasleep
  · rw [hpc]
    decide

theorem Kept.notify (h : Kept inputs written w) : Kept inputs written w.notify := by
  have hpc := w.notify_pc
  refine ⟨?_, h.file, h.called, h.seen, ?_, ?_, fun _ => w.notify_awake⟩
  · rw [h.conserved]
    obtain hpc | ⟨hasleep, hpc⟩ := hpc
    · rw [hpc]
      rfl
    · rw [hpc, hasleep]
      rfl
  · intro hreturned
    obtain hpc | ⟨-, hpc⟩ := hpc
    · exact h.drained (hpc ▸ hreturned)
    · rw [hpc] at hreturned
      cases hreturned
  · intro hstop
    have hreturned := h.joined hstop
    obtain hpc | ⟨hasleep, -⟩ := hpc
    · rw [hpc, hreturned]
    · rw [hasleep] at hreturned
      cases hreturned

/-- A step of the worker that does not return moves an event along. -/
theorem Kept.move (h : Kept inputs written w) {queue : List LogEvent} {out : Text} {pc : LoggerPc}
    {new : List LogEvent} (hnot : w.pc ≠ .returned) (hpc : pc ≠ .returned)
    (hmove : new ++ pc.batch ++ queue = w.pc.batch ++ w.queue)
    (hout : out = w.out ++ eventsJsonl new) (hawake : w.stopping = true → pc ≠ .asleep) :
    Kept inputs (written ++ new) { w with queue := queue, out := out, pc := pc } := by
  refine ⟨?_, ?_, h.called, h.seen, fun hr => absurd hr hpc, fun hr => absurd (h.joined hr) hnot,
    fun hjoining => hawake (h.called.mpr (by rw [hjoining]; decide))⟩
  · rw [h.conserved, List.append_assoc, ← hmove]
    simp only [List.append_assoc]
  · rw [hout, h.file, eventsJsonl_append]

theorem Kept.run (h : Kept inputs written w) : Kept inputs (written ++ w.run.2) w.run.1 := by
  have hconserved := h.conserved
  unfold LoggerWorker.run
  split
  · rename_i hpc
    have hnot : w.pc ≠ .returned := by rw [hpc]; decide
    split
    · split
      · -- the worker returns, and everything pushed so far is written
        rename_i hreturn
        obtain ⟨hstopping, hempty⟩ := Bool.and_eq_true_iff.mp hreturn
        rw [hpc, List.isEmpty_iff.mp hempty] at hconserved
        simp only [LoggerPc.batch, List.append_nil] at hconserved
        rw [List.append_nil]
        refine ⟨by simpa [LoggerPc.batch] using hconserved, h.file, h.called, h.seen,
          fun _ => ⟨hstopping, ?_⟩, fun _ => rfl, fun _ => LoggerPc.noConfusion⟩
        rw [← hconserved]
        exact (List.takeWhile_prefix _).filterMap _
      · refine h.move hnot nofun ?_ ?_ nofun
        · rw [hpc]
          exact List.append_nil _
        · exact (List.append_nil _).symm
    · rename_i hidle
      refine h.move hnot nofun ?_ (List.append_nil _).symm ?_
      · rw [hpc]
        rfl
      · intro hstopping
        simp [hstopping] at hidle
  · simpa using h
  · rename_i hpc
    refine h.move (by rw [hpc]; decide) nofun ?_ (List.append_nil _).symm nofun
    rw [hpc]
    rfl
  · rename_i ev batch hpc
    refine h.move (by rw [hpc]; exact nofun) nofun ?_ ?_ nofun
    · rw [hpc]
      rfl
    · exact congrArg (w.out ++ ·) (List.append_nil _).symm
  · simpa using h

theorem Kept.stop (h : Kept inputs written w) : Kept (inputs ++ [.stop]) written w.stop := by
  have hmem : .stop ∈ inputs ++ [LoggerInput.stop] := List.mem_append_right _ List.mem_cons_self
  have hconserved : pushes (inputs ++ [.stop]) = written ++ w.pc.batch ++ w.queue := by
    rw [pushes_append, h.conserved]
    exact List.append_nil _
  -- a call of `stop` that is under way has set the flag
  have hcalled : w.stopPc ≠ .notCalled → w.stopping = true := h.called.mpr
  unfold LoggerWorker.stop
  split
  · rename_i hnot
    have hstopping : w.stopping ≠ true := fun hstopping => h.called.mp hstopping hnot
    rw [if_neg hstopping]
    exact ⟨hconserved, h.file, by simp, iff_of_true rfl hmem,
      fun hpc => absurd (h.drained hpc).1 hstopping, nofun, nofun⟩
  · rename_i hnotifying
    have hstopping := hcalled (by rw [hnotifying]; decide)
    have hn := h.notify
    refine ⟨?_, hn.file, iff_of_true hstopping StopPc.noConfusion, iff_of_true hstopping hmem,
      hn.drained_concat _, nofun, fun _ => w.notify_awake⟩
    rw [pushes_append, hn.conserved]
    exact List.append_nil _
  · rename_i hjoining
    have hstopping := hcalled (by rw [hjoining]; decide)
    split
    · rename_i hpc
      exact ⟨hconserved, h.file, iff_of_true hstopping StopPc.noConfusion,
        iff_of_true hstopping hmem, h.drained_concat _, fun _ => hpc, nofun⟩
    · exact ⟨hconserved, h.file, h.called, iff_of_true hstopping hmem, h.drained_concat _,
        h.joined, h.awake⟩
  · rename_i hreturned
    have hstopping := hcalled (by rw [hreturned]; decide)
    exact ⟨hconserved, h.file, h.called, iff_of_true hstopping hmem, h.drained_concat _, h.joined,
      h.awake⟩

theorem Kept.step (h : Kept inputs written w) (a : LoggerInput) :
    Kept (inputs ++ [a]) (written ++ (w.step a).2) (w.step a).1 := by
  cases a with
  | push ev => simpa [LoggerWorker.step] using h.push ev
  | notify => simpa [LoggerWorker.step] using (h.input rfl (by decide)).notify
  | run => exact (h.input rfl (by decide)).run
  | stop => simpa [LoggerWorker.step] using h.stop

theorem kept_run (inputs : List LoggerInput) :
    Kept inputs (Machine.outputs step {} inputs) (Machine.after step {} inputs) :=
  Machine.run_history (fun _ _ _ a h => h.step a) kept_init inputs

/-! ### The worker returns -/

/-- No fewer steps than a worker that is to stop still takes. -/
def work (w : LoggerWorker) : Nat :=
  match w.pc with
  | .returned => 0
  | .writing batch => 3 * w.queue.length + batch.length + 2
  | _ => 3 * w.queue.length + 1

theorem run_work (hstopping : w.stopping = true) (hawake : w.pc ≠ .asleep) :
    (w.run.1.stopping = true ∧ w.run.1.pc ≠ .asleep) ∧
      (w.run.1.work < w.work ∨ w.run.1.work = 0) := by
  obtain ⟨queue, stopping, out, pc, stopPc⟩ := w
  obtain rfl : stopping = true := hstopping
  cases pc with
  | checking =>
      cases queue with
      | nil => simp [LoggerWorker.run, work]
      | cons ev queue =>
          refine ⟨⟨rfl, LoggerPc.noConfusion⟩, Or.inl ?_⟩
          simp only [LoggerWorker.run, work, List.isEmpty_cons, Bool.true_or, Bool.and_false,
            if_true, Bool.false_eq_true, if_false, List.length_nil, List.length_cons]
          omega
  | asleep => exact absurd rfl hawake
  | writing batch =>
      cases batch with
      | nil => simp [LoggerWorker.run, work]
      | cons ev batch => simp [LoggerWorker.run, work]
  | returned => exact ⟨⟨rfl, hawake⟩, Or.inr rfl⟩

theorem returned_of_work (h : w.work = 0) : w.pc = .returned := by
  rw [work] at h
  split at h
  · assumption
  · cases h
  · cases h

/-- A worker that is to stop returns, if it is not asleep. -/
theorem after_run_returned {n : Nat} (hstopping : w.stopping = true) (hawake : w.pc ≠ .asleep)
    (hn : w.work ≤ n) : (Machine.after step w (List.replicate n .run)).pc = .returned :=
  returned_of_work (Machine.after_replicate_of_work
    (P := fun w => w.stopping = true ∧ w.pc ≠ .asleep) (fun _ h => run_work h.1 h.2)
    ⟨hstopping, hawake⟩ hn)

theorem run_stopPc (w : LoggerWorker) : w.run.1.stopPc = w.stopPc := by
  unfold LoggerWorker.run
  repeat' split
  all_goals rfl

theorem after_run_stopPc (w : LoggerWorker) (n : Nat) :
    (Machine.after step w (List.replicate n .run)).stopPc = w.stopPc := by
  induction n generalizing w with
  | zero => rfl
  | succ n ih =>
      rw [List.replicate_succ, Machine.after_cons, ih]
      exact w.run_stopPc

/-- A thread in `stop` comes to wait for a worker that is awake. -/
theorem Kept.joining (h : Kept inputs written w) (hcalled : w.stopPc ≠ .notCalled) :
    w.stop.stopping = true ∧ w.stop.pc ≠ .asleep ∧
      (w.stop.stopPc = .joining ∨ w.stop.stopPc = .returned) := by
  have hstopping := h.called.mpr hcalled
  cases hpc : w.stopPc with
  | notCalled => exact absurd hpc hcalled
  | notifying =>
      simp only [LoggerWorker.stop, hpc]
      exact ⟨hstopping, w.notify_awake, Or.inl trivial⟩
  | joining =>
      simp only [LoggerWorker.stop, hpc]
      split
      · exact ⟨hstopping, h.awake hpc, Or.inr rfl⟩
      · exact ⟨hstopping, h.awake hpc, Or.inl hpc⟩
  | returned =>
      simp only [LoggerWorker.stop, hpc]
      exact ⟨hstopping, by rw [h.joined hpc]; decide, Or.inr trivial⟩

/-- When `stop` returns, the file holds one line for each event pushed before
the call, in the order of the queue, and behind them at most events that were
pushed meanwhile. And it returns, once the worker has made enough steps. -/
theorem stop_writes_pushed (pre post : List LoggerInput) (hpre : .stop ∉ pre) :
    ((Machine.after step {} (pre ++ .stop :: post)).stopPc = .returned →
      ∃ more, more <+: pushes post ∧
        (Machine.after step {} (pre ++ .stop :: post)).out = eventsJsonl (pushes pre ++ more)) ∧
    ∃ n, ∀ m, n ≤ m →
      (Machine.after step {} (pre ++ .stop :: post ++
        (.stop :: List.replicate m .run ++ [.stop]))).stopPc = .returned := by
  have h := kept_run (pre ++ .stop :: post)
  have hbefore : beforeStop (pre ++ .stop :: post) = pre := by
    have hpos : ∀ a ∈ pre, decide (a ≠ .stop) = true := fun a ha =>
      decide_eq_true (ne_of_mem_of_not_mem ha hpre)
    rw [beforeStop, List.takeWhile_append_of_pos hpos]
    simp
  constructor
  · intro hreturned
    obtain ⟨hstopping, more, hmore⟩ := h.drained (h.joined hreturned)
    rw [hbefore] at hmore
    refine ⟨more, ?_, by rw [h.file, hmore]⟩
    have hconserved := h.conserved
    rw [← hmore, pushes_append, List.append_assoc, List.append_assoc,
      List.append_cancel_left_eq] at hconserved
    exact ⟨_, hconserved.symm⟩
  · have hstopping : (Machine.after step {} (pre ++ .stop :: post)).stopping = true :=
      h.seen.mpr (List.mem_append_right _ List.mem_cons_self)
    obtain ⟨hstopping', hawake, hjoining⟩ := h.joining (h.called.mp hstopping)
    refine ⟨(Machine.after step {} (pre ++ .stop :: post)).stop.work, fun m hm => ?_⟩
    have hpc := after_run_returned hstopping' hawake hm
    have hstopPc := (Machine.after step {} (pre ++ .stop :: post)).stop.after_run_stopPc m
    rw [Machine.after_append, Machine.after_append, Machine.after_cons]
    generalize Machine.after step {} (pre ++ .stop :: post) = w at hjoining hpc hstopPc ⊢
    rw [← hstopPc] at hjoining
    simp only [Machine.after_cons, Machine.after_nil, step]
    generalize Machine.after step w.stop (List.replicate m .run) = w' at hjoining hpc ⊢
    obtain hjoining | hjoining := hjoining
    · simp only [LoggerWorker.stop, hjoining, hpc, if_true]
    · simp only [LoggerWorker.stop, hjoining]

/-- Two events are pushed, the second while the first is written; `stop` is
called while the second waits, and a third event comes too late. -/
theorem stop_writes_pushed_two :
    let ev (n : Nat) : LogEvent := { seq := BitVec.ofNat 32 n }
    let pre : List LoggerInput := [.run, .push (ev 1), .notify, .run, .push (ev 2), .run]
    let post : List LoggerInput := [.stop, .run, .run, .run, .run, .run, .push (ev 3), .stop]
    (Machine.after step {} (pre ++ .stop :: post)).stopPc = .returned ∧
      ∃ more, more <+: pushes post ∧
        (Machine.after step {} (pre ++ .stop :: post)).out = eventsJsonl (pushes pre ++ more) :=
  have hreturned := by decide +kernel
  ⟨hreturned, (stop_writes_pushed _ _ (by decide)).1 hreturned⟩

end LoggerWorker

end SafetyCopro
