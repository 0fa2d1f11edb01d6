import SafetyCopro.Supervisor.EventLoop

/-!
The way of a report from the recovery worker to the event loop. A post puts the
report into `reports_` under the lock and then writes the eventfd; the loop
waits for the eventfd, reads it until nothing is left and then swaps `reports_`
out. Both sides take two steps, and the steps of any number of posts may fall
between those of the loop.
-/

namespace SafetyCopro

inductive DrainPc
  -- in `epoll_wait`, or at the other descriptors
  | waiting
  -- in the loop that reads `wake_`
  | reading
  -- at the lock of `drain_recovery_reports`
  | swapping
  -- unlocked, with these reports of `local` to apply
  | applying (reps : List (RecoveryReport U16))
deriving DecidableEq, Repr

structure ReportQueue where
  reports : List (RecoveryReport U16) := []
  /-- The counter of the eventfd. -/
  wake : Nat := 0
  /-- The posts that are between the lock and the write. -/
  posting : Nat := 0
  pc : DrainPc := .waiting
  loop : EventLoop := {}
deriving DecidableEq

inductive ReportInput
  -- `post_recovery_report`, up to the end of the lock
  | post (rep : RecoveryReport U16)
  -- one of the posts writes the eventfd
  | write
  -- a step of the event loop
  | run
deriving DecidableEq, Repr

/-- A write of 1 to a nonblocking eventfd, which fails at the largest count. -/
def eventfdWrite (count : Nat) : Nat := if count + 1 < 2 ^ 64 - 1 then count + 1 else count

namespace ReportQueue

def post (q : ReportQueue) (rep : RecoveryReport U16) : ReportQueue :=
  { q with reports := q.reports ++ [rep], posting := q.posting + 1 }

def write (q : ReportQueue) : ReportQueue :=
  if 0 < q.posting then { q with wake := eventfdWrite q.wake, posting := q.posting - 1 } else q

/-- A step of the loop, with the report that it applies. -/
def run (q : ReportQueue) : ReportQueue × List (RecoveryReport U16) :=
  match q.pc with
  | .waiting => (if 0 < q.wake then { q with pc := .reading } else q, [])
  | .reading =>
      -- a read takes the whole count, and the last one finds nothing
      (if 0 < q.wake then { q with wake := 0 } else { q with pc := .swapping }, [])
  | .swapping => ({ q with reports := [], pc := .applying q.reports }, [])
  | .applying [] => ({ q with pc := .waiting }, [])
  | .applying (rep :: reps) =>
      ({ q with pc := .applying reps, loop := (q.loop.drainReport rep).1 }, [rep])

def step (q : ReportQueue) : ReportInput → ReportQueue × List (RecoveryReport U16)
  | .post rep => (q.post rep, [])
  | .write => (q.write, [])
  | .run => q.run

end ReportQueue

def posted (inputs : List ReportInput) : List (RecoveryReport U16) :=
  inputs.filterMap fun
    | .post rep => some rep
    | _ => none

theorem posted_append (inputs more : List ReportInput) :
    posted (inputs ++ more) = posted inputs ++ posted more := List.filterMap_append

def DrainPc.taken : DrainPc → List (RecoveryReport U16)
  | .applying reps => reps
  | _ => []

namespace ReportQueue
variable {inputs : List ReportInput} {drained : List (RecoveryReport U16)} {q : ReportQueue}

/-- Reports lie in the queue, and nothing will make the loop look. -/
def Lost (q : ReportQueue) : Prop :=
  q.reports ≠ [] ∧ q.wake = 0 ∧ q.posting = 0 ∧ q.pc = .waiting

/-- What was posted is drained, taken or in the queue, in this order. And where
reports lie in the queue, the eventfd is set or about to be, or the loop is on
its way to them. -/
structure Carried (inputs : List ReportInput) (drained : List (RecoveryReport U16))
    (q : ReportQueue) : Prop where
  conserved : posted inputs = drained ++ q.pc.taken ++ q.reports
  signalled : q.reports ≠ [] → 0 < q.posting ∨ 0 < q.wake ∨ q.pc = .reading ∨ q.pc = .swapping

theorem Carried.not_lost (h : Carried inputs drained q) : ¬ q.Lost := by
  rintro ⟨hreports, hwake, hposting, hpc⟩
  obtain h | h | h | h := h.signalled hreports
  · omega
  · omega
  · rw [hpc] at h
    cases h
  · rw [hpc] at h
    cases h

theorem eventfdWrite_pos (count : Nat) : 0 < eventfdWrite count := by
  unfold eventfdWrite
  split <;> omega

theorem Carried.post (h : Carried inputs drained q) (rep : RecoveryReport U16) :
    Carried (inputs ++ [.post rep]) drained (q.post rep) := by
  refine ⟨?_, fun _ => Or.inl (Nat.succ_pos _)⟩
  rw [posted_append, h.conserved, List.append_assoc]
  rfl

theorem Carried.write (h : Carried inputs drained q) :
    Carried (inputs ++ [.write]) drained q.write := by
  unfold ReportQueue.write
  split
  · refine ⟨?_, fun _ => Or.inr (Or.inl (eventfdWrite_pos _))⟩
    rw [posted_append, h.conserved]
    exact List.append_nil _
  · refine ⟨?_, h.signalled⟩
    rw [posted_append, h.conserved]
    exact List.append_nil _

theorem Carried.run (h : Carried inputs drained q) :
    Carried (inputs ++ [.run]) (drained ++ q.run.2) q.run.1 := by
  have hconserved : posted (inputs ++ [.run]) = drained ++ q.pc.taken ++ q.reports := by
    rw [posted_append, h.conserved]
    exact List.append_nil _
  have hsignalled := h.signalled
  unfold ReportQueue.run
  split
  · rename_i hpc
    rw [hpc] at hconserved
    split
    · refine ⟨?_, fun _ => Or.inr (Or.inr (Or.inl rfl))⟩
      rw [List.append_nil]
      exact hconserved
    · refine ⟨?_, hsignalled⟩
      rw [List.append_nil, hpc]
      exact hconserved
  · rename_i hpc
    rw [hpc] at hconserved
    split
    · refine ⟨?_, fun _ => Or.inr (Or.inr (Or.inl hpc))⟩
      rw [List.append_nil]
      dsimp only
      rw [hpc]
      exact hconserved
    · refine ⟨?_, fun _ => Or.inr (Or.inr (Or.inr rfl))⟩
      rw [List.append_nil]
      exact hconserved
  · rename_i hpc
    rw [hpc] at hconserved
    refine ⟨?_, fun hne => absurd rfl hne⟩
    simpa [DrainPc.taken] using hconserved
  · rename_i hpc
    rw [hpc] at hconserved hsignalled
    refine ⟨by simpa [DrainPc.taken] using hconserved, fun hne => ?_⟩
    simpa using hsignalled hne
  · rename_i rep reps hpc
    rw [hpc] at hconserved hsignalled
    refine ⟨by simpa [DrainPc.taken] using hconserved, fun hne => ?_⟩
    simpa using hsignalled hne

theorem Carried.step (h : Carried inputs drained q) (a : ReportInput) :
    Carried (inputs ++ [a]) (drained ++ (q.step a).2) (q.step a).1 := by
  cases a with
  | post rep => simpa [ReportQueue.step] using h.post rep
  | write => simpa [ReportQueue.step] using h.write
  | run => exact h.run

theorem carried_run (loop : EventLoop) (inputs : List ReportInput) :
    Carried inputs (Machine.outputs step { loop } inputs) (Machine.after step { loop } inputs) :=
  Machine.run_history (fun _ _ _ a h => h.step a) ⟨rfl, fun hne => absurd rfl hne⟩ inputs

/-- The loop applies a report when it is drained. -/
theorem step_loop (q : ReportQueue) (a : ReportInput) :
    (q.step a).1.loop = Machine.after EventLoop.drainReport q.loop (q.step a).2 := by
  cases a with
  | post rep => rfl
  | write =>
      rw [step, ReportQueue.write]
      split <;> rfl
  | run =>
      rw [step, ReportQueue.run]
      repeat' split
      all_goals rfl

theorem after_loop (q : ReportQueue) (inputs : List ReportInput) :
    (Machine.after step q inputs).loop =
      Machine.after EventLoop.drainReport q.loop (Machine.outputs step q inputs) := by
  induction inputs generalizing q with
  | nil => rfl
  | cons a inputs ih =>
      rw [Machine.after_cons, ih, step_loop, Machine.outputs_cons, Machine.after_append]

/-! ### Everything is drained -/

/-- The steps of the loop up to the swap. -/
def toSwap (q : ReportQueue) : Nat :=
  match q.pc with
  | .swapping => 0
  | .reading => if 0 < q.wake then 2 else 1
  | .waiting => 3
  | .applying _ => 4

/-- No fewer steps than the loop takes to drain what was posted. -/
def work (q : ReportQueue) : Nat :=
  q.pc.taken.length + if q.reports = [] then 0 else q.reports.length + 1 + q.toSwap

theorem Carried.run_work (h : Carried inputs drained q) (hposting : q.posting = 0) :
    q.run.1.posting = 0 ∧ (q.run.1.work < q.work ∨ q.run.1.work = 0) := by
  have hsignalled := h.signalled
  obtain ⟨reports, wake, posting, pc, loop⟩ := q
  obtain rfl : posting = 0 := hposting
  by_cases hreports : reports = []
  · subst hreports
    cases pc with
    | waiting =>
        simp only [ReportQueue.run]
        split <;> simp [work, DrainPc.taken]
    | reading =>
        simp only [ReportQueue.run]
        split <;> simp [work, DrainPc.taken]
    | swapping => simp [ReportQueue.run, work, DrainPc.taken]
    | applying reps => cases reps <;> simp [ReportQueue.run, work, DrainPc.taken]
  · cases pc with
    | waiting =>
        have hwake : 0 < wake := by simpa using hsignalled hreports
        simp [ReportQueue.run, work, toSwap, hreports, hwake, DrainPc.taken]
    | reading =>
        simp only [ReportQueue.run]
        split
        · rename_i hwake
          simp [work, toSwap, hreports, hwake, DrainPc.taken]
        · rename_i hwake
          simp [work, toSwap, hreports, hwake, DrainPc.taken]
    | swapping => simp [ReportQueue.run, work, toSwap, hreports, DrainPc.taken]
    | applying reps =>
        cases reps <;> simp [ReportQueue.run, work, toSwap, hreports, DrainPc.taken]

theorem Carried.after_run (h : Carried inputs drained q) (hposting : q.posting = 0) {n : Nat}
    (hn : q.work ≤ n) :
    (Machine.after ReportQueue.step q (List.replicate n .run)).work = 0 := by
  refine Machine.after_replicate_of_work
    (P := fun q => q.posting = 0 ∧ ∃ inputs drained, Carried inputs drained q)
    (fun q hq => ?_) ⟨hposting, inputs, drained, h⟩ hn
  obtain ⟨hposting, inputs, drained, h⟩ := hq
  obtain ⟨hposting', hwork⟩ := h.run_work hposting
  exact ⟨⟨hposting', _, _, h.run⟩, hwork⟩

/-- The posts that are under way end. -/
theorem after_write (q : ReportQueue) :
    (Machine.after step q (List.replicate q.posting .write)).posting = 0 := by
  induction hn : q.posting generalizing q with
  | zero => exact hn
  | succ n ih =>
      have hwrite : q.write.posting = n := by
        rw [write, if_pos (by omega)]
        exact Nat.sub_eq_of_eq_add hn
      rw [List.replicate_succ, Machine.after_cons]
      exact hwrite ▸ ih q.write hwrite

theorem Carried.drained_of_work (h : Carried inputs drained q) (hwork : q.work = 0) :
    drained = posted inputs := by
  have hconserved := h.conserved
  rw [work] at hwork
  have htaken : q.pc.taken = [] := List.length_eq_zero_iff.mp (Nat.add_eq_zero_iff.mp hwork).1
  have hreports : q.reports = [] := by
    by_contra hne
    rw [if_neg hne] at hwork
    omega
  rw [hconserved, htaken, hreports, List.append_nil, List.append_nil]

/-- Reports are drained in the order in which they were posted, each once, and
applied as they are drained; none is ever left behind in the queue with the loop
asleep; and once the posts under way have ended, the loop drains all of them. -/
theorem reports_drained_in_order (loop : EventLoop) (inputs : List ReportInput) :
    (posted inputs = Machine.outputs step { loop } inputs ++
      (Machine.after step { loop } inputs).pc.taken ++
      (Machine.after step { loop } inputs).reports) ∧
    (Machine.after step { loop } inputs).loop =
      Machine.after EventLoop.drainReport loop (Machine.outputs step { loop } inputs) ∧
    ¬ (Machine.after step { loop } inputs).Lost ∧
    ∃ n, ∀ m, Machine.outputs step { loop } (inputs ++
        List.replicate (Machine.after step { loop } inputs).posting .write ++
        List.replicate (n + m) .run) = posted inputs := by
  have h := carried_run loop inputs
  refine ⟨h.conserved, after_loop { loop } inputs, h.not_lost, ?_⟩
  have hwrites := (Machine.after step { loop } inputs).after_write
  rw [← Machine.after_append] at hwrites
  generalize hp : (Machine.after step { loop } inputs).posting = p at hwrites
  have hquiet : ∀ k, posted (inputs ++ List.replicate p .write ++ List.replicate k .run) =
      posted inputs := by
    intro k
    simp [posted, List.filterMap_append]
  have hwritten := carried_run loop (inputs ++ List.replicate p .write)
  refine ⟨(Machine.after step { loop } (inputs ++ List.replicate p .write)).work, fun m => ?_⟩
  have hwork := hwritten.after_run hwrites (Nat.le_add_right _ m)
  rw [← Machine.after_append] at hwork
  exact ((carried_run loop _).drained_of_work hwork).trans (hquiet _)

end ReportQueue

end SafetyCopro
