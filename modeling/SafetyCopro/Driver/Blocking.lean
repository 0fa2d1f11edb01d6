import SafetyCopro.Driver.Consumers
import SafetyCopro.Lib.WaitQueue

/-!
Reads that wait. Any number of readers run `safety_read` step by step, each pop
and each look at the queue under the lock on its own, while other calls put frames
in and wake the readers only after they have let go of the lock. The other models
take a read for one step; here that is a theorem.
-/

namespace SafetyCopro

open WaitQueue (Phase Progress Sound)

/-- The arguments of a `read`: the room in the buffer, `O_NONBLOCK` and whether the
buffer cannot be written. -/
structure ReadCall where
  count : Nat
  nonblock : Bool
  fault : Bool
deriving DecidableEq, Repr

def ReadCall.op (c : ReadCall) : DevOp := .read c.count c.nonblock c.fault

/-- The end of `safety_read`, with a slot. -/
def ReadCall.copyOut (c : ReadCall) (slot : List U8) : Except Errno (List U8) :=
  if c.count < slot.length then .error .einval
  else if c.fault then .error .efault
  else .ok slot

inductive ReaderPc
  | away
  -- the head of the loop, before `safety_fifo_pop_frame`
  | popping (c : ReadCall)
  -- in `wait_event_interruptible`
  | waiting (c : ReadCall) (p : Phase)
deriving DecidableEq, Repr

namespace ReaderPc

def phase : ReaderPc → Option Phase
  | .waiting _ p => some p
  | _ => none

def wake : ReaderPc → ReaderPc
  | .waiting c p => .waiting c p.wake
  | pc => pc

/-- The read a reader is in. -/
def call : ReaderPc → Option ReadCall
  | .away => none
  | .popping c | .waiting c _ => some c

theorem call_wake (pc : ReaderPc) : pc.wake.call = pc.call := by
  cases pc <;> rfl

theorem phase_wake (pc : ReaderPc) : pc.wake.phase = pc.phase.map Phase.wake := by
  cases pc <;> rfl

end ReaderPc

section Readers
universe u
variable {ι : Type u} [DecidableEq ι]

structure Readers (ι : Type u) where
  dev : SafetyCoproDev
  pc : ι → ReaderPc := fun _ => .away
  signalled : ι → Bool := fun _ => false
  -- frames that are in the queue with `wake_up_interruptible` still to come
  wakes : Nat := 0

/-- Calls of others than the readers. -/
def DevOp.NoRead : DevOp → Prop
  | .read .. => False
  | _ => True

inductive ReadersInput (ι : Type u)
  -- another call, up to the wake-up it may owe
  | call (op : { op : DevOp // op.NoRead }) (ctx : Context)
  | wake
  | start (i : ι) (c : ReadCall)
  | signal (i : ι)
  -- the next step of a reader
  | run (i : ι)

inductive ReadersEvent (ι : Type u)
  | other (e : DevEvent)
  | returned (i : ι) (result : Except Errno (List U8))

namespace Readers

def goto (s : Readers ι) (i : ι) (pc : ReaderPc) : Readers ι :=
  { s with pc := Function.update s.pc i pc }

/-- The reader is back in user space, where pending signals are handled. -/
def finish (s : Readers ι) (i : ι) (result : Except Errno (List U8)) :
    Readers ι × List (ReadersEvent ι) :=
  ({ s.goto i .away with signalled := Function.update s.signalled i false },
    [.returned i result])

def runReader (s : Readers ι) (i : ι) : Readers ι × List (ReadersEvent ι) :=
  match s.pc i with
  | .away => (s, [])
  | .popping c =>
      let (dev, slot) := s.dev.fifoPopFrame
      let s := { s with dev }
      if slot.length = 0 then
        if c.nonblock then s.finish i (.error .eagain) else (s.goto i (.waiting c .entering), [])
      else s.finish i (c.copyOut slot)
  | .waiting c p =>
      match p.advance (decide (0 < s.dev.rxFifo.length)) (s.signalled i) with
      | .waits p => (s.goto i (.waiting c p), [])
      | .ready => (s.goto i (.popping c), [])
      | .interrupted => s.finish i (.error .erestartsys)

def step (s : Readers ι) : ReadersInput ι → Readers ι × List (ReadersEvent ι)
  | .call op ctx =>
      let o := s.dev.call ctx op.1
      ({ s with
          dev := o.dev
          wakes := if s.dev.rxFifo.length < o.dev.rxFifo.length then s.wakes + 1 else s.wakes },
        (s.dev.step (op.1, ctx)).2.map .other)
  | .wake =>
      if s.wakes = 0 then (s, [])
      else ({ s with pc := fun i => (s.pc i).wake, wakes := s.wakes - 1 }, [])
  | .start i c =>
      match s.pc i with
      | .away => (s.goto i (.popping c), [])
      | _ => (s, [])
  | .signal i => ({ s with signalled := Function.update s.signalled i true }, [])
  | .run i => s.runReader i

/-- The call of the one-step model that a step stands for: a read happens when it
returns. -/
def calls (s : Readers ι) : ReadersInput ι → List (DevOp × Context)
  | .call op ctx => [(op.1, ctx)]
  | .run i =>
      match s.pc i with
      | .popping c | .waiting c _ => if (s.runReader i).2.length = 0 then [] else [(c.op, {})]
      | .away => []
  | _ => []

end Readers

/-- What the device tells, whoever asked. -/
def ReadersEvent.told : ReadersEvent ι → List DevEvent
  | .other e => [e]
  | .returned _ result => [.returned (result.map .frame)]

/-! ### One step of a reader -/

namespace Readers

/-- Everything a step of a reader can do, with the read it stands for. -/
inductive Ran (s : Readers ι) (i : ι) :
    List (DevOp × Context) → Readers ι × List (ReadersEvent ι) → Prop
  | idle (hpc : s.pc i = .away) : Ran s i [] (s, [])
  | took {c : ReadCall} {slot : List U8} {rest : List (List U8)} (hpc : s.pc i = .popping c)
      (hfifo : s.dev.rxFifo = slot :: rest) (hslot : 0 < slot.length) :
      Ran s i [(c.op, {})]
        ({ s with dev := { s.dev with rxFifo := rest } }.finish i (c.copyOut slot))
  | refused {c : ReadCall} (hpc : s.pc i = .popping c) (hfifo : s.dev.rxFifo = [])
      (hnonblock : c.nonblock = true) : Ran s i [(c.op, {})] (s.finish i (.error .eagain))
  | blocked {c : ReadCall} (hpc : s.pc i = .popping c) (hfifo : s.dev.rxFifo = [])
      (hnonblock : c.nonblock = false) : Ran s i [] (s.goto i (.waiting c .entering), [])
  | waited {c : ReadCall} {p q : Phase} (hpc : s.pc i = .waiting c p)
      (hq : p.advance (decide (0 < s.dev.rxFifo.length)) (s.signalled i) = .waits q) :
      Ran s i [] (s.goto i (.waiting c q), [])
  | roused {c : ReadCall} {p : Phase} (hpc : s.pc i = .waiting c p)
      (hready : p.advance (decide (0 < s.dev.rxFifo.length)) (s.signalled i) = .ready) :
      Ran s i [] (s.goto i (.popping c), [])
  | interrupted {c : ReadCall} {woken : Bool} (hpc : s.pc i = .waiting c (.looking woken true))
      (hfifo : s.dev.rxFifo = []) : Ran s i [(c.op, {})] (s.finish i (.error .erestartsys))

theorem ran {s : Readers ι} (h : s.dev.Slotted) (i : ι) :
    s.Ran i (s.calls (.run i)) (s.runReader i) := by
  cases hpc : s.pc i with
  | away =>
      simp only [calls, runReader, hpc]
      exact .idle hpc
  | popping c =>
      cases hfifo : s.dev.rxFifo with
      | nil =>
          have hpop : s.dev.fifoPopFrame = (s.dev, []) := by
            rw [SafetyCoproDev.fifoPopFrame, hfifo]
          cases hnonblock : c.nonblock with
          | false =>
              simp only [calls, runReader, hpc, hpop, hnonblock, List.length_nil, if_true,
                Bool.false_eq_true, if_false]
              exact .blocked hpc hfifo hnonblock
          | true =>
              simp only [calls, runReader, hpc, hpop, hnonblock, List.length_nil, if_true]
              exact .refused hpc hfifo hnonblock
      | cons slot rest =>
          have hslot : 0 < slot.length := h.rx slot (hfifo ▸ List.mem_cons_self)
          have hpop : s.dev.fifoPopFrame = ({ s.dev with rxFifo := rest }, slot) := by
            rw [SafetyCoproDev.fifoPopFrame, hfifo]
          simp only [calls, runReader, hpc, hpop, Nat.ne_of_gt hslot, if_false]
          exact .took hpc hfifo hslot
  | waiting c p =>
      simp only [calls, runReader, hpc]
      cases hadv : p.advance (decide (0 < s.dev.rxFifo.length)) (s.signalled i) with
      | waits q => exact .waited hpc hadv
      | ready => exact .roused hpc hadv
      | interrupted =>
          obtain ⟨hempty, woken, rfl⟩ := Phase.advance_interrupted hadv
          exact .interrupted hpc (List.eq_nil_of_length_eq_zero
            (Nat.eq_zero_of_not_pos (of_decide_eq_false hempty)))

/-! ### Runs -/

/-- What holds after any interleaving. -/
structure Inv (s : Readers ι) : Prop where
  slotted : s.dev.Slotted
  -- only a blocking read waits
  blocking : ∀ i c p, s.pc i = .waiting c p → c.nonblock = false
  sound : Sound (0 < s.dev.rxFifo.length) (fun i => (s.pc i).phase) s.wakes

variable {s : Readers ι}

@[simp] theorem goto_self (s : Readers ι) (i : ι) (pc : ReaderPc) : (s.goto i pc).pc i = pc := by
  simp only [goto, Function.update_self]

theorem goto_of_ne (s : Readers ι) {i j : ι} (h : j ≠ i) (pc : ReaderPc) :
    (s.goto i pc).pc j = s.pc j := by
  simp only [goto, Function.update_of_ne h]

theorem phase_goto (s : Readers ι) (i : ι) (pc : ReaderPc) :
    (fun j => ((s.goto i pc).pc j).phase) =
      Function.update (fun j => (s.pc j).phase) i pc.phase := by
  funext j
  by_cases hij : j = i
  · subst hij
    rw [goto_self, Function.update_self]
  · rw [goto_of_ne s hij, Function.update_of_ne hij]

/-- A reader may go anywhere, and to sleep when the queue is empty or it slept
before. -/
theorem Inv.goto (h : s.Inv) (i : ι) {pc : ReaderPc}
    (hblocking : ∀ c p, pc = .waiting c p → c.nonblock = false)
    (hasleep : pc.phase = some (.asleep false) →
      ¬ 0 < s.dev.rxFifo.length ∨ (s.pc i).phase = some (.asleep false)) :
    (s.goto i pc).Inv where
  slotted := h.slotted
  blocking := by
    intro j c p hpc
    by_cases hij : j = i
    · subst hij
      rw [goto_self] at hpc
      exact hblocking c p hpc
    · rw [goto_of_ne s hij] at hpc
      exact h.blocking j c p hpc
  sound := by
    rw [phase_goto]
    exact h.sound.update i hasleep

theorem Inv.finish (h : s.Inv) (i : ι) (result : Except Errno (List U8)) :
    (s.finish i result).1.Inv :=
  { @Inv.goto _ _ s h i .away (by simp) (by simp [ReaderPc.phase]) with }

/-- Other calls only add frames, and owe a wake-up then. -/
theorem Inv.called (h : s.Inv) (op : { op : DevOp // op.NoRead }) (ctx : Context) :
    (s.step (.call op ctx)).1.Inv where
  slotted := h.slotted.call ctx op.1
  blocking := h.blocking
  sound := by
    have hop : ∀ count nonblock fault, op.1 ≠ .read count nonblock fault := by
      intro count nonblock fault heq
      have hnot := op.2
      rw [heq] at hnot
      exact hnot
    obtain ⟨frames, -, hrx⟩ := @SafetyCoproDev.call_grows s.dev ctx op.1 hop
    simp only [step]
    by_cases hgrows : s.dev.rxFifo.length < (s.dev.call ctx op.1).dev.rxFifo.length
    · rw [if_pos hgrows]
      exact WaitQueue.sound_announce _ _ _
    · rw [if_neg hgrows]
      refine h.sound.anti fun hpos => ?_
      omega

theorem Inv.step (h : s.Inv) (input : ReadersInput ι) : (s.step input).1.Inv := by
  cases input with
  | call op ctx => exact h.called op ctx
  | wake =>
      rw [Readers.step]
      split
      · exact h
      · refine ⟨h.slotted, ?_, ?_⟩
        · intro i c p hpc
          have hpc : (s.pc i).wake = .waiting c p := hpc
          cases hi : s.pc i with
          | waiting c' p' =>
              rw [hi] at hpc
              obtain ⟨rfl, -⟩ := ReaderPc.waiting.inj hpc
              exact h.blocking i c' p' hi
          | _ =>
              rw [hi] at hpc
              cases hpc
        · simp only [ReaderPc.phase_wake]
          exact WaitQueue.sound_wake _ _ _
  | start i c =>
      rw [Readers.step]
      split
      · exact h.goto i (by simp) (by simp [ReaderPc.phase])
      · exact h
  | signal i => exact { h with }
  | run i =>
      have hran := ran h.slotted i
      rw [Readers.step]
      generalize s.runReader i = r, s.calls (.run i) = calls at hran
      cases hran with
      | idle hpc => exact h
      | @took c slot rest hpc hfifo hslot =>
          refine @Inv.finish _ _ { s with dev := { s.dev with rxFifo := rest } } ?_ i _
          refine ⟨⟨fun f hf => h.slotted.rx f ?_, h.slotted.tx⟩, h.blocking, ?_⟩
          · rw [hfifo]
            exact List.mem_cons_of_mem _ hf
          · refine h.sound.anti fun _ => ?_
            rw [hfifo]
            exact Nat.succ_pos _
      | refused hpc hfifo hnonblock => exact h.finish i _
      | blocked hpc hfifo hnonblock =>
          refine h.goto i (fun c' p' heq => ?_) (by simp [ReaderPc.phase])
          obtain ⟨rfl, -⟩ := ReaderPc.waiting.inj heq
          exact hnonblock
      | @waited c p q hpc hq =>
          refine h.goto i (fun c' p' heq => ?_) ?_
          · obtain ⟨rfl, -⟩ := ReaderPc.waiting.inj heq
            exact h.blocking i _ _ hpc
          · intro hasleep
            obtain rfl := Option.some.inj hasleep
            obtain hempty | rfl := Phase.advance_asleep hq
            · exact Or.inl (of_decide_eq_false hempty)
            · rw [hpc]
              exact Or.inr rfl
      | roused hpc hready => exact h.goto i (by simp) (by simp [ReaderPc.phase])
      | interrupted hpc hfifo => exact h.finish i _

omit [DecidableEq ι] in
theorem inv_init {dev : SafetyCoproDev} (h : dev.Slotted) : ({ dev } : Readers ι).Inv where
  slotted := h
  blocking := by
    intro i c p hpc
    cases hpc
  sound := fun _ => Or.inr fun i hi => by cases hi

theorem inv_run {dev : SafetyCoproDev} (h : dev.Slotted) (inputs : List (ReadersInput ι)) :
    (Machine.after step { dev } inputs).Inv :=
  Machine.after_invariant (fun _ input hs => hs.step input) (inv_init h) inputs

/-! ### One read at a time -/

theorem step_read_slot {dev : SafetyCoproDev} {slot : List U8} {rest : List (List U8)}
    (h : dev.rxFifo = slot :: rest) (hslot : 0 < slot.length) (c : ReadCall) :
    dev.step (c.op, {}) =
      ({ dev with rxFifo := rest }, [.returned ((c.copyOut slot).map .frame)]) := by
  simp only [SafetyCoproDev.step, ReadCall.op, SafetyCoproDev.call, Outcome.reply,
    SafetyCoproDev.safetyRead_slot h hslot]
  rfl

theorem step_read_empty {dev : SafetyCoproDev} (h : dev.rxFifo = []) (c : ReadCall) :
    dev.step (c.op, {}) =
      (dev, [.returned (.error (if c.nonblock then .eagain else .erestartsys))]) := by
  simp only [SafetyCoproDev.step, ReadCall.op, SafetyCoproDev.call, Outcome.reply,
    SafetyCoproDev.safetyRead_empty h]
  rfl

/-- A step that returns from a read is that read, and no other step of a reader
shows. -/
theorem simulated (h : s.Inv) (input : ReadersInput ι) :
    Machine.after SafetyCoproDev.step s.dev (s.calls input) = (s.step input).1.dev ∧
      Machine.outputs SafetyCoproDev.step s.dev (s.calls input) =
        (s.step input).2.flatMap ReadersEvent.told := by
  cases input with
  | call op ctx =>
      refine ⟨rfl, ?_⟩
      simp only [step, calls, Machine.outputs_cons, Machine.outputs_nil, List.append_nil,
        List.flatMap_map]
      exact (List.flatMap_singleton' _).symm
  | wake =>
      rw [step]
      split <;> exact ⟨rfl, rfl⟩
  | start i c =>
      rw [step]
      split <;> exact ⟨rfl, rfl⟩
  | signal i => exact ⟨rfl, rfl⟩
  | run i =>
      have hran := ran h.slotted i
      rw [step]
      generalize s.runReader i = r, s.calls (.run i) = calls at hran
      cases hran with
      | took hpc hfifo hslot =>
          have hread := step_read_slot hfifo hslot
          simp only [Machine.after_cons, Machine.after_nil, Machine.outputs_cons,
            Machine.outputs_nil, hread]
          exact ⟨rfl, rfl⟩
      | @refused c hpc hfifo hnonblock =>
          have hread := step_read_empty hfifo c
          rw [hnonblock, if_pos rfl] at hread
          simp only [Machine.after_cons, Machine.after_nil, Machine.outputs_cons,
            Machine.outputs_nil, hread]
          exact ⟨rfl, rfl⟩
      | @interrupted c woken hpc hfifo =>
          have hread := step_read_empty hfifo c
          rw [h.blocking i c _ hpc, if_neg Bool.false_ne_true] at hread
          simp only [Machine.after_cons, Machine.after_nil, Machine.outputs_cons,
            Machine.outputs_nil, hread]
          exact ⟨rfl, rfl⟩
      | _ => exact ⟨rfl, rfl⟩

/-! ### Signals -/

/-- Only a signal makes a reader give up. -/
structure Blamed (inputs : List (ReadersInput ι)) (events : List (ReadersEvent ι))
    (s : Readers ι) : Prop where
  looked : ∀ i c woken, s.pc i = .waiting c (.looking woken true) → s.signalled i = true
  pending : ∀ i, s.signalled i = true → .signal i ∈ inputs
  returned : ∀ i, .returned i (.error .erestartsys) ∈ events → .signal i ∈ inputs

namespace Blamed
variable {inputs : List (ReadersInput ι)} {events es : List (ReadersEvent ι)} {s s' : Readers ι}
  {input : ReadersInput ι}

omit [DecidableEq ι] in
/-- A step that shows nothing of a signal. -/
theorem quiet (h : Blamed inputs events s)
    (hlooked : ∀ i c woken, s'.pc i = .waiting c (.looking woken true) → s'.signalled i = true)
    (hpending : ∀ i, s'.signalled i = true → s.signalled i = true ∨ input = .signal i)
    (hes : ∀ i, .returned i (.error .erestartsys) ∈ es → s.signalled i = true) :
    Blamed (inputs ++ [input]) (events ++ es) s' where
  looked := hlooked
  pending := by
    intro i hi
    obtain hi | rfl := hpending i hi
    · exact List.mem_append_left _ (h.pending i hi)
    · exact List.mem_append_right _ List.mem_cons_self
  returned := by
    intro i hi
    obtain hi | hi := List.mem_append.mp hi
    · exact List.mem_append_left _ (h.returned i hi)
    · exact List.mem_append_left _ (h.pending i (hes i hi))

theorem goto (h : Blamed inputs events s) (i : ι) {pc : ReaderPc}
    (hpc : ∀ c woken, pc = .waiting c (.looking woken true) → s.signalled i = true) :
    Blamed (inputs ++ [input]) events (s.goto i pc) := by
  rw [← List.append_nil events]
  refine h.quiet (fun j c woken hj => ?_) (fun j hj => Or.inl hj) (by simp)
  by_cases hij : j = i
  · subst hij
    rw [goto_self] at hj
    exact hpc c woken hj
  · rw [goto_of_ne s hij] at hj
    exact h.looked j c woken hj

theorem finish (h : Blamed inputs events s) (i : ι) (dev : SafetyCoproDev)
    {result : Except Errno (List U8)}
    (hresult : result = .error .erestartsys → s.signalled i = true) :
    Blamed (inputs ++ [input]) (events ++ ({ s with dev }.finish i result).2)
      ({ s with dev }.finish i result).1 := by
  refine h.quiet (fun j c woken hj => ?_) (fun j hj => Or.inl ?_) (fun j hj => ?_)
  · have hj : (s.goto i .away).pc j = .waiting c (.looking woken true) := hj
    by_cases hij : j = i
    · subst hij
      rw [goto_self] at hj
      cases hj
    · rw [goto_of_ne s hij] at hj
      simpa only [Readers.finish, Function.update_of_ne hij] using h.looked j c woken hj
  · by_cases hij : j = i
    · subst hij
      simp only [Readers.finish, Function.update_self] at hj
      cases hj
    · simpa only [Readers.finish, Function.update_of_ne hij] using hj
  · obtain ⟨rfl, rfl⟩ := ReadersEvent.returned.inj (List.mem_singleton.mp hj)
    exact hresult rfl

theorem run (h : Blamed inputs events s) (hslotted : s.dev.Slotted) (i : ι) :
    Blamed (inputs ++ [.run i]) (events ++ (s.runReader i).2) (s.runReader i).1 := by
  have hran := ran hslotted i
  generalize s.runReader i = r, s.calls (.run i) = calls at hran
  cases hran with
  | idle hpc => exact h.quiet h.looked (fun j hj => Or.inl hj) (by simp)
  | @took c slot rest hpc hfifo hslot =>
      refine h.finish i { s.dev with rxFifo := rest } fun hresult => ?_
      rw [ReadCall.copyOut] at hresult
      split at hresult
      · cases hresult
      · split at hresult <;> cases hresult
  | refused hpc hfifo hnonblock => exact h.finish i s.dev (by simp)
  | blocked hpc hfifo hnonblock =>
      rw [List.append_nil]
      exact h.goto i (by simp)
  | @waited c p q hpc hq =>
      rw [List.append_nil]
      refine h.goto i fun c' woken heq => ?_
      obtain ⟨-, rfl⟩ := ReaderPc.waiting.inj heq
      exact Phase.advance_looking hq
  | roused hpc hready =>
      rw [List.append_nil]
      exact h.goto i (by simp)
  | interrupted hpc hfifo => exact h.finish i s.dev fun _ => h.looked i _ _ hpc

theorem step (h : Blamed inputs events s) (hslotted : s.dev.Slotted) (input : ReadersInput ι) :
    Blamed (inputs ++ [input]) (events ++ (s.step input).2) (s.step input).1 := by
  cases input with
  | call op ctx =>
      refine h.quiet h.looked (fun j hj => Or.inl hj) fun j hj => ?_
      obtain ⟨e, -, he⟩ := List.mem_map.mp hj
      cases he
  | wake =>
      rw [Readers.step]
      split
      · exact h.quiet h.looked (fun j hj => Or.inl hj) (by simp)
      · refine h.quiet (fun j c woken hj => ?_) (fun j hj => Or.inl hj) (by simp)
        have hj : (s.pc j).wake = .waiting c (.looking woken true) := hj
        cases hpc : s.pc j with
        | waiting c' p =>
            rw [hpc] at hj
            obtain ⟨-, hp⟩ := ReaderPc.waiting.inj hj
            cases p with
            | looking woken' interrupted =>
                obtain ⟨-, rfl⟩ := Phase.looking.inj hp
                exact h.looked j c' woken' hpc
            | _ => cases hp
        | _ =>
            rw [hpc] at hj
            cases hj
  | start i c =>
      rw [Readers.step]
      split
      · rw [List.append_nil]
        exact h.goto i (by simp)
      · exact h.quiet h.looked (fun j hj => Or.inl hj) (by simp)
  | signal i =>
      refine h.quiet (fun j c woken hj => ?_) (fun j hj => ?_) (by simp [Readers.step])
      · by_cases hij : j = i
        · subst hij
          simp only [Readers.step, Function.update_self]
        · simpa only [Readers.step, Function.update_of_ne hij] using h.looked j c woken hj
      · by_cases hij : j = i
        · subst hij
          exact Or.inr rfl
        · refine Or.inl ?_
          simpa only [Readers.step, Function.update_of_ne hij] using hj
  | run i => exact h.run hslotted i

end Blamed

theorem blamed_run {dev : SafetyCoproDev} (h : dev.Slotted) (inputs : List (ReadersInput ι)) :
    Blamed inputs (Machine.outputs step { dev } inputs) (Machine.after step { dev } inputs) := by
  have hinit : Blamed [] [] ({ dev } : Readers ι) := by
    refine ⟨fun i c woken hi => ?_, fun i hi => ?_, fun i hi => ?_⟩
    all_goals cases hi
  exact (Machine.run_history (P := fun inputs events s => Blamed inputs events s ∧ s.Inv)
    (fun _ _ _ input hs => ⟨hs.1.step hs.2.slotted input, hs.2.step input⟩)
    ⟨hinit, inv_init h⟩ inputs).1

/-! ### Nobody sleeps through a frame -/

theorem after_wakes (s : Readers ι) :
    let s' := Machine.after step s (List.replicate s.wakes .wake)
    s'.wakes = 0 ∧ s'.dev = s.dev ∧ ∀ i, (s'.pc i).call = (s.pc i).call := by
  generalize hn : s.wakes = n
  induction n generalizing s with
  | zero => exact ⟨hn, rfl, fun _ => rfl⟩
  | succ n ih =>
      have hstep : s.step .wake =
          ({ s with pc := fun i => (s.pc i).wake, wakes := s.wakes - 1 }, []) := by
        rw [step, if_neg (by omega)]
      rw [List.replicate_succ, Machine.after_cons, hstep]
      obtain ⟨hwakes, hdev, hcall⟩ :=
        ih { s with pc := fun i => (s.pc i).wake, wakes := s.wakes - 1 } (by simp [hn])
      exact ⟨hwakes, hdev, fun i => (hcall i).trans (s.pc i).call_wake⟩

/-- A reader that is awake ends its wait when there is a frame. -/
theorem run_waiting {s : Readers ι} (hfifo : 0 < s.dev.rxFifo.length) {i : ι} {c : ReadCall}
    {p : Phase} (hpc : s.pc i = .waiting c p) (hawake : p ≠ .asleep false) :
    (Machine.after step s (List.replicate p.steps (.run i))).pc i = .popping c ∧
      (Machine.after step s (List.replicate p.steps (.run i))).dev = s.dev ∧
      Machine.outputs step s (List.replicate p.steps (.run i)) = [] := by
  generalize hn : p.steps = n
  induction n generalizing s p with
  | zero => cases p <;> cases hn
  | succ n ih =>
      have hrun : s.step (.run i) = s.runReader i := rfl
      rw [List.replicate_succ, Machine.after_cons, Machine.outputs_cons, hrun]
      obtain ⟨hready, hone⟩ | ⟨q, hq, hqawake, hsteps⟩ := p.advance_true hawake (s.signalled i)
      · obtain rfl : n = 0 := by omega
        simp only [runReader, hpc, hfifo, decide_true, hready, List.replicate_zero,
          Machine.after_nil, Machine.outputs_nil, List.append_nil, goto_self, true_and, and_true]
        rfl
      · simp only [runReader, hpc, hfifo, decide_true, hq, List.nil_append]
        exact ih hfifo (goto_self s i _) hqawake (by omega)

theorem run_popping {s : Readers ι} {i : ι} {c : ReadCall} (hpc : s.pc i = .popping c)
    {slot : List U8} {rest : List (List U8)} (hfifo : s.dev.rxFifo = slot :: rest)
    (hslot : 0 < slot.length) :
    s.step (.run i) =
      { s with dev := { s.dev with rxFifo := rest } }.finish i (c.copyOut slot) := by
  have hpop : s.dev.fifoPopFrame = ({ s.dev with rxFifo := rest }, slot) := by
    rw [SafetyCoproDev.fifoPopFrame, hfifo]
  simp only [step, runReader, hpc, hpop, Nat.ne_of_gt hslot, if_false]

/-- A reader that nobody gets in the way of takes the first frame in a few steps. -/
theorem run_reader (h : s.Inv) (hwakes : s.wakes = 0) {i : ι} {c : ReadCall}
    (hcall : (s.pc i).call = some c) {slot : List U8} {rest : List (List U8)}
    (hfifo : s.dev.rxFifo = slot :: rest) :
    ∃ n ≤ 4, let inputs := List.replicate n (.run i)
      Machine.outputs step s inputs = [.returned i (c.copyOut slot)] ∧
        (Machine.after step s inputs).dev.rxFifo = rest := by
  have hslot : 0 < slot.length := h.slotted.rx slot (hfifo ▸ List.mem_cons_self)
  cases hpc : s.pc i with
  | away =>
      rw [hpc] at hcall
      cases hcall
  | popping c' =>
      rw [hpc] at hcall
      obtain rfl := Option.some.inj hcall
      refine ⟨1, by decide, ?_⟩
      simp only [List.replicate_one, Machine.outputs_cons, Machine.outputs_nil, Machine.after_cons,
        Machine.after_nil, run_popping hpc hfifo hslot]
      exact ⟨rfl, rfl⟩
  | waiting c' p =>
      rw [hpc] at hcall
      obtain rfl := Option.some.inj hcall
      have hpos : 0 < s.dev.rxFifo.length := by
        rw [hfifo]
        exact Nat.succ_pos _
      have hawake : p ≠ .asleep false := by
        rintro rfl
        obtain hpending | hnone := h.sound hpos
        · omega
        · exact hnone i (congrArg ReaderPc.phase hpc)
      obtain ⟨hpc', hdev, hnothing⟩ := run_waiting hpos hpc hawake
      have hsteps : p.steps ≤ 3 := by cases p <;> simp [Phase.steps]
      refine ⟨p.steps + 1, by omega, ?_⟩
      rw [← hdev] at hfifo
      simp only [List.replicate_succ', Machine.outputs_append, Machine.after_append, hnothing,
        Machine.outputs_cons, Machine.outputs_nil, Machine.after_cons, Machine.after_nil,
        run_popping hpc' hfifo hslot]
      exact ⟨rfl, rfl⟩

end Readers

/-- However any number of readers, other calls, wake-ups and signals interleave, the
device goes through the states of a run of one call at a time and tells the same in
the same order: a read that waits is a read at the moment it returns. -/
theorem reads_linearize {hbTimeoutMs : U32} {fifoDepth cpus : Nat} {dev : SafetyCoproDev}
    (h : safetyCoproInit hbTimeoutMs fifoDepth cpus = some dev)
    (inputs : List (ReadersInput ι)) :
    let s := Machine.after Readers.step { dev } inputs
    let events := Machine.outputs Readers.step { dev } inputs
    let calls := Machine.translated Readers.step Readers.calls { dev } inputs
    Machine.after SafetyCoproDev.step dev calls = s.dev ∧
      Machine.outputs SafetyCoproDev.step dev calls = events.flatMap ReadersEvent.told := by
  intro s events calls
  exact @Machine.simulates _ _ _ Readers.step _ _ _ SafetyCoproDev.step Readers.calls Readers.Inv
    (fun _ input hs => hs.step input) Readers.dev ReadersEvent.told
    (fun _ input hs => (Readers.simulated hs input).1)
    (fun _ input hs => (Readers.simulated hs input).2) _
    (Readers.inv_init (SafetyCoproDev.slotted_init h)) inputs

/-- No reader is left asleep with a frame in the queue: a wake-up is still to come,
and once the wake-ups owed are done every reader in a call needs at most four steps
of its own to return with the first frame. A blocking read gives up only for a
signal. -/
theorem no_lost_wakeup {hbTimeoutMs : U32} {fifoDepth cpus : Nat} {dev : SafetyCoproDev}
    (h : safetyCoproInit hbTimeoutMs fifoDepth cpus = some dev)
    (inputs : List (ReadersInput ι)) :
    let s := Machine.after Readers.step { dev } inputs
    let events := Machine.outputs Readers.step { dev } inputs
    (∀ i c, s.pc i = .waiting c (.asleep false) → s.dev.rxFifo ≠ [] → 0 < s.wakes) ∧
      (∀ i c slot rest, (s.pc i).call = some c → s.dev.rxFifo = slot :: rest →
        let woken := Machine.after Readers.step s (List.replicate s.wakes .wake)
        ∃ n ≤ 4, let own := List.replicate n (ReadersInput.run i)
          Machine.outputs Readers.step woken own = [.returned i (c.copyOut slot)] ∧
            (Machine.after Readers.step woken own).dev.rxFifo = rest) ∧
      ∀ i, .returned i (.error .erestartsys) ∈ events → .signal i ∈ inputs := by
  intro s events
  have hslotted := SafetyCoproDev.slotted_init h
  have hinv : s.Inv := Readers.inv_run hslotted inputs
  refine ⟨fun i c hpc hfifo => ?_, fun i c slot rest hcall hfifo => ?_,
    (Readers.blamed_run hslotted inputs).returned⟩
  · obtain hpending | hnone := hinv.sound (List.length_pos_of_ne_nil hfifo)
    · exact hpending
    · exact absurd (congrArg ReaderPc.phase hpc) (hnone i)
  · obtain ⟨hwakes, hdev, hsame⟩ := s.after_wakes
    have hwoken : (Machine.after Readers.step s (List.replicate s.wakes .wake)).Inv :=
      Machine.after_invariant (fun _ input hs => hs.step input) hinv _
    exact Readers.run_reader hwoken hwakes ((hsame i).trans hcall)
      ((congrArg SafetyCoproDev.rxFifo hdev).trans hfifo)

/-- Two readers wait; one frame comes, both are woken, and one of them gets it. -/
def twoReaders : List (ReadersInput Bool) :=
  [.start true ⟨64, false, false⟩, .start false ⟨64, false, false⟩]
    ++ List.replicate 4 (.run true) ++ List.replicate 4 (.run false)
    ++ [.call ⟨.ioctl (.injectFault (some 3)), trivial⟩ {}, .wake]
    ++ List.replicate 4 (.run true) ++ [.run false]

theorem reads_linearize_twoReaders :
    ∃ dev, safetyCoproInit 0 0 1 = some dev ∧
      let s := Machine.after Readers.step { dev } twoReaders
      let calls := Machine.translated Readers.step Readers.calls { dev } twoReaders
      calls.length = 2 ∧ s.pc true = .away ∧ (s.pc false).call ≠ none ∧
        Machine.after SafetyCoproDev.step dev calls = s.dev :=
  ⟨_, rfl, by decide +kernel, by decide +kernel, by decide +kernel,
    (@reads_linearize Bool _ 0 0 1 _ rfl twoReaders).1⟩

theorem no_lost_wakeup_twoReaders :
    ∃ dev, safetyCoproInit 0 0 1 = some dev ∧
      let s := Machine.after Readers.step { dev } (twoReaders.take 11)
      s.pc true = .waiting ⟨64, false, false⟩ (.asleep false) ∧ s.dev.rxFifo ≠ [] ∧ 0 < s.wakes :=
  ⟨_, rfl, by decide +kernel, by decide +kernel,
    (@no_lost_wakeup Bool _ 0 0 1 _ rfl (twoReaders.take 11)).1 true
      ⟨64, false, false⟩ (by decide +kernel) (by decide +kernel)⟩

end Readers

end SafetyCopro
