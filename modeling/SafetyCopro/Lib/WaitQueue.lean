import Mathlib.Logic.Function.Basic

/-!
Threads that wait for a condition on a queue, in the manner of the kernel's
`wait_event_interruptible`: a thread looks, gets on the queue, looks again and
sleeps. Whoever makes the condition true wakes the queue some time later. Between
any two steps of a thread the others may run.
-/

namespace WaitQueue

/-- What a waiting thread does next. -/
inductive Phase
  -- look once before anything else
  | entering
  -- get on the queue
  | preparing
  -- look from the queue; `interrupted` if a signal was pending when it got there
  | looking (woken interrupted : Bool)
  -- `schedule`, which returns at once if the thread was woken meanwhile
  | asleep (woken : Bool)
deriving DecidableEq, Repr

inductive Progress
  | waits (p : Phase)
  | ready
  | interrupted
deriving DecidableEq, Repr

namespace Phase

/-- A wake-up reaches those on the queue. -/
def wake : Phase → Phase
  | .looking _ interrupted => .looking true interrupted
  | .asleep _ => .asleep true
  | p => p

def advance (cond signalled : Bool) : Phase → Progress
  | .entering => if cond then .ready else .waits .preparing
  | .preparing => .waits (.looking false signalled)
  | .looking woken interrupted =>
      if cond then .ready
      else if interrupted then .interrupted
      else .waits (.asleep woken)
  | .asleep woken => if woken || signalled then .waits .preparing else .waits (.asleep false)

/-- Steps to the end of the wait once the condition holds. -/
def steps : Phase → Nat
  | .entering | .looking .. => 1
  | .preparing => 2
  | .asleep _ => 3

theorem wake_ne (p : Phase) : p.wake ≠ .asleep false := by
  cases p <;> simp [wake]

/-- With the condition true a thread that is not asleep comes nearer to the end. -/
theorem advance_true {p : Phase} (h : p ≠ .asleep false) (signalled : Bool) :
    p.advance true signalled = .ready ∧ p.steps = 1 ∨
      ∃ q, p.advance true signalled = .waits q ∧ q ≠ .asleep false ∧ p.steps = q.steps + 1 := by
  cases p with
  | entering => exact Or.inl ⟨rfl, rfl⟩
  | preparing => exact Or.inr ⟨_, rfl, by simp, rfl⟩
  | looking woken interrupted => exact Or.inl ⟨rfl, rfl⟩
  | asleep woken =>
      cases woken with
      | false => exact absurd rfl h
      | true => exact Or.inr ⟨_, rfl, by simp, rfl⟩

/-- A thread goes to sleep when it has seen the condition false. -/
theorem advance_asleep {cond signalled : Bool} {p : Phase}
    (h : p.advance cond signalled = .waits (.asleep false)) : cond = false ∨ p = .asleep false := by
  cases p with
  | asleep woken =>
      cases woken with
      | false => exact Or.inr rfl
      | true => cases h
  | preparing => cases h
  | entering =>
      cases cond with
      | false => exact Or.inl rfl
      | true => cases h
  | looking woken interrupted =>
      cases cond with
      | false => exact Or.inl rfl
      | true => cases h

theorem advance_looking {cond signalled woken : Bool} {p : Phase}
    (h : p.advance cond signalled = .waits (.looking woken true)) : signalled = true := by
  cases p with
  | entering => cases cond <;> cases h
  | preparing =>
      obtain ⟨-, hsignalled⟩ := looking.inj (Progress.waits.inj h)
      exact hsignalled
  | looking woken interrupted => cases cond <;> cases interrupted <;> cases h
  | asleep woken => cases woken <;> cases signalled <;> cases h

/-- It gives up only then, too, and only for a signal. -/
theorem advance_interrupted {cond signalled : Bool} {p : Phase}
    (h : p.advance cond signalled = .interrupted) :
    cond = false ∧ ∃ woken, p = .looking woken true := by
  cases p with
  | entering => cases cond <;> cases h
  | preparing => cases h
  | looking woken interrupted =>
      cases cond with
      | true => cases h
      | false =>
          cases interrupted with
          | false => cases h
          | true => exact ⟨rfl, woken, rfl⟩
  | asleep woken => cases woken <;> cases signalled <;> cases h

end Phase

section Sound
universe u
variable {ι : Type u}

/-- Nobody sleeps through the condition: if it holds while a thread sleeps, a
wake-up is still to come. -/
def Sound (cond : Prop) (phase : ι → Option Phase) (pending : Nat) : Prop :=
  cond → 0 < pending ∨ ∀ i, phase i ≠ some (.asleep false)

variable {cond : Prop} {phase : ι → Option Phase} {pending : Nat}

theorem Sound.anti {cond' : Prop} (h : Sound cond phase pending) (himp : cond' → cond) :
    Sound cond' phase pending := fun hcond => h (himp hcond)

/-- Whoever makes the condition true owes a wake-up. -/
theorem sound_announce (cond : Prop) (phase : ι → Option Phase) (pending : Nat) :
    Sound cond phase (pending + 1) := fun _ => Or.inl (Nat.succ_pos _)

theorem sound_wake (cond : Prop) (phase : ι → Option Phase) (pending : Nat) :
    Sound cond (fun i => (phase i).map Phase.wake) pending := by
  refine fun _ => Or.inr fun i hi => ?_
  obtain ⟨p, -, hp⟩ := Option.map_eq_some_iff.mp hi
  exact p.wake_ne hp

/-- A thread may go anywhere, and to sleep when it has seen the condition false or
slept before. -/
theorem Sound.update [DecidableEq ι] (h : Sound cond phase pending) (i : ι) {p : Option Phase}
    (hp : p = some (.asleep false) → ¬ cond ∨ phase i = some (.asleep false)) :
    Sound cond (Function.update phase i p) pending := by
  intro hcond
  obtain hpending | hawake := h hcond
  · exact Or.inl hpending
  · refine Or.inr fun j hj => ?_
    by_cases hij : j = i
    · rw [hij, Function.update_self] at hj
      obtain hnot | hslept := hp hj
      · exact hnot hcond
      · exact hawake i hslept
    · rw [Function.update_of_ne hij] at hj
      exact hawake j hj

end Sound

end WaitQueue
