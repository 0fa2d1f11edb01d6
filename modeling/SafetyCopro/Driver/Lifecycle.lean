import Mathlib.Algebra.BigOperators.Group.Multiset.Basic
import Mathlib.Data.List.Infix
import SafetyCopro.Lib.Resources
import SafetyCopro.Driver.Interleaving

/-!
The driver as a module. It is loaded, which may fail at any allocation; then its
file is opened and closed, calls on it, the watchdog's callback and the recovery
work run side by side; and once no file is open, it can be unloaded. What
`safety_copro_exit` frees is not used again: the timer is stopped before the work
it queues, and both before the memory they use.
-/

namespace SafetyCopro
open Interleave (Effect Pool Move)
open Resources (Use Leads)

/-- What `safety_copro_init` allocates. -/
inductive DriverResource
  | dev
  | rxFifo
  | txFifo
  | pcpu
deriving DecidableEq, Repr

/-- On whose behalf a section runs. -/
inductive Caller
  | file
  | timer
  | work
deriving DecidableEq, Repr

namespace Section

/-- What a section uses beside the device. -/
def uses : Section → List DriverResource
  | .push .. | .pop .. | .waitReadable .. | .pollRx | .rxDepth .. => [.dev, .rxFifo]
  | .pushTx .. | .traceTx .. | .popTx _ | .pollTx _ | .txDepth .. => [.dev, .txFifo]
  | .incRx _ | .incDropped | .sumCpu .. | .resetCpu _ => [.dev, .pcpu]
  | _ => [.dev]

/-- The sections by which the driver queues a frame of its own. -/
def synthesises : Section → Bool
  | .takeSeq _ | .push _ _ _ _ .driver | .incRx _ | .countDrop _ _ | .incDropped | .trace _
  | .ret _ => true
  | _ => false

/-- The sections of the watchdog's callback. -/
def ofTimer : Section → Bool
  | .fire | .expire | .schedule => true
  | a => a.synthesises

/-- The sections of the recovery work. -/
def ofWork : Section → Bool
  | .dequeue | .recover => true
  | a => a.synthesises

end Section

def Caller.owns : Caller → Section → Bool
  | .file => fun _ => true
  | .timer => Section.ofTimer
  | .work => Section.ofWork

def DevOp.isFileOp : DevOp → Bool
  | .hbTimer | .recoveryWork => false
  | _ => true

/-- A section with whose it is. -/
def SafetyCoproDev.ownExec (x : Caller × Section) (env : SectionEnv) (dev : SafetyCoproDev) :
    Effect SafetyCoproDev (Caller × Section) (Use DriverResource) where
  shared := (exec x.2 env dev).shared
  next := (exec x.2 env dev).next.map (x.1, ·)
  out := x.2.uses.map .touch

/-- What can fail in `safety_copro_init`. -/
inductive InitStep
  | kzalloc
  | rxKfifoAlloc
  | txKfifoAlloc
  | percpuInit
  | miscRegister
deriving DecidableEq, Repr

/-- The labels of `safety_copro_init` that a failure jumps to. -/
def errFreeDev : List (Use DriverResource) := [.free .dev]
def errFreeRxFifo : List (Use DriverResource) := .free .rxFifo :: errFreeDev
def errFreeTxFifo : List (Use DriverResource) := .free .txFifo :: errFreeRxFifo
def errDestroyWq : List (Use DriverResource) := .touch .dev :: .free .pcpu :: errFreeTxFifo

/-- The steps of `safety_copro_exit`. -/
inductive ExitStep
  | debugfsDestroy
  | miscDeregister
  | timerDestroy
  | recoveryDestroy
  | percpuDestroy
  | freeTxFifo
  | freeRxFifo
  | freeDev
deriving DecidableEq, Repr

def safetyCoproExit : List ExitStep :=
  [.debugfsDestroy, .miscDeregister, .timerDestroy, .recoveryDestroy, .percpuDestroy, .freeTxFifo,
    .freeRxFifo, .freeDev]

def ExitStep.uses : ExitStep → List (Use DriverResource)
  | .percpuDestroy => [.touch .dev, .free .pcpu]
  | .freeTxFifo => [.touch .dev, .free .txFifo]
  | .freeRxFifo => [.touch .dev, .free .rxFifo]
  | .freeDev => [.free .dev]
  | _ => [.touch .dev]

/-- The step that frees a resource. -/
def DriverResource.freedBy : DriverResource → ExitStep
  | .dev => .freeDev
  | .rxFifo => .freeRxFifo
  | .txFifo => .freeTxFifo
  | .pcpu => .percpuDestroy

/-- The driver while it is loaded: the calls under way, how many files are open, and
what is left of `safety_copro_exit` once that has begun. -/
structure Module where
  pool : Pool SafetyCoproDev (Caller × Section)
  files : Nat := 0
  exit : Option (List ExitStep) := none

inductive ModuleInput
  | load (hbTimeoutMs : U32) (fifoDepth cpus : Nat) (fails : InitStep → Bool)
  | openFile
  | releaseFile
  | call (op : DevOp)
  -- the timer expires
  | expire
  -- the work queue takes up the work
  | work
  -- one of the calls goes on
  | run (i : Nat) (env : SectionEnv)
  | unload
  -- `safety_copro_exit` goes on
  | exit

namespace Module

/-- No call on somebody's behalf is under way. -/
def idle (m : Module) (c : Caller) : Bool := m.pool.calls.flatten.all fun x => x.1 != c

def start (m : Module) (c : Caller) (op : DevOp) : Module :=
  { m with pool := (Interleave.step SafetyCoproDev.ownExec m.pool
      (.start ((SafetyCoproDev.sections op).map (c, ·)))).1 }

/-- `hrtimer_cancel` waits for the callback and `cancel_work_sync` for the work. -/
def ready (m : Module) : ExitStep → Bool
  | .timerDestroy => m.idle .timer
  | .recoveryDestroy => m.idle .work
  | _ => true

def takeDown (dev : SafetyCoproDev) : ExitStep → SafetyCoproDev
  | .timerDestroy => { dev with hbTimerArmed := false }
  | .recoveryDestroy => { dev with recoveryWorkQueued := false }
  | _ => dev

/-- One step of `safety_copro_exit`, which is over behind the last. -/
def exitStep (m : Module) (s : ExitStep) (todo : List ExitStep) :
    Option Module × List (Use DriverResource) :=
  if m.ready s then
    (if todo = [] then none
      else some { m with
        pool := { m.pool with shared := takeDown m.pool.shared s }, exit := some todo },
      s.uses)
  else (some m, [])

/-- `safety_copro_init`, by what fails in it. -/
def load (hbTimeoutMs : U32) (fifoDepth cpus : Nat) (fails : InitStep → Bool) :
    Option Module × List (Use DriverResource) :=
  if fails .kzalloc then (none, [])
  else
    match safetyCoproInit hbTimeoutMs fifoDepth cpus with
    | none => (none, .alloc .dev :: errFreeDev)
    | some dev =>
        if fails .rxKfifoAlloc then (none, .alloc .dev :: errFreeDev)
        else if fails .txKfifoAlloc then (none, .alloc .dev :: .alloc .rxFifo :: errFreeRxFifo)
        else if fails .percpuInit then
          (none, .alloc .dev :: .alloc .rxFifo :: .alloc .txFifo :: errFreeTxFifo)
        else if fails .miscRegister then
          (none,
            .alloc .dev :: .alloc .rxFifo :: .alloc .txFifo :: .alloc .pcpu :: errDestroyWq)
        else
          (some { pool := { shared := dev } },
            [.alloc .dev, .alloc .rxFifo, .alloc .txFifo, .alloc .pcpu])

/-- The kernel lets no file be opened once the module is going, and lets it go only
when none is open; a file is released when no call on it is under way. -/
def step : Option Module → ModuleInput → Option Module × List (Use DriverResource)
  | none, .load hbTimeoutMs fifoDepth cpus fails => load hbTimeoutMs fifoDepth cpus fails
  | none, _ => (none, [])
  | some m, .load .. => (some m, [])
  | some m, .openFile =>
      (some (if m.exit = none then { m with files := m.files + 1 } else m), [])
  | some m, .releaseFile =>
      (some (if 1 < m.files ∨ m.idle .file then { m with files := m.files - 1 } else m), [])
  | some m, .call op =>
      (some (if 0 < m.files ∧ op.isFileOp then m.start .file op else m), [])
  | some m, .expire =>
      (some (if m.pool.shared.hbTimerArmed then m.start .timer .hbTimer else m), [])
  | some m, .work =>
      (some (if m.pool.shared.recoveryWorkQueued then m.start .work .recoveryWork else m), [])
  | some m, .run i env =>
      (some { m with pool := (Interleave.step SafetyCoproDev.ownExec m.pool (.run i env)).1 },
        (Interleave.step SafetyCoproDev.ownExec m.pool (.run i env)).2)
  | some m, .unload =>
      (some (if m.files = 0 ∧ m.exit = none then { m with exit := some safetyCoproExit } else m),
        [])
  | some m, .exit =>
      match m.exit with
      | some (s :: todo) => m.exitStep s todo
      | _ => (some m, [])

end Module

/-! ### The sections of each caller -/

namespace SafetyCoproDev
variable {dev : SafetyCoproDev} {env : SectionEnv} {a : Section}

theorem exec_synthesises (h : a.synthesises = true) :
    a.writesLink = false ∧ ∀ b ∈ (exec a env dev).next, b.synthesises = true := by
  have hsynth {l : List Section} (hl : l.all Section.synthesises = true) :
      ∀ b ∈ l, b.synthesises = true := List.all_eq_true.mp hl
  cases a with
  | push frame seq type event pusher =>
      cases pusher with
      | linkd vres => cases h
      | driver =>
          refine ⟨rfl, ?_⟩
          obtain heq | heq | heq := exec_push frame seq type event .driver env dev
          · rw [heq]
            exact hsynth rfl
          · rw [heq]
            exact hsynth rfl
          · rw [heq]
            exact hsynth rfl
  | takeSeq s =>
      rw [exec_takeSeq]
      exact ⟨rfl, hsynth rfl⟩
  | incRx _ | countDrop _ _ | incDropped | trace _ | ret _ => exact ⟨rfl, hsynth rfl⟩
  | _ => cases h

theorem ofTimer_of_synthesises (h : a.synthesises = true) : a.ofTimer = true := by
  cases a <;> first | exact h | rfl

theorem ofWork_of_synthesises (h : a.synthesises = true) : a.ofWork = true := by
  cases a <;> first | exact h | rfl

theorem ofTimer_cases (h : a.ofTimer = true) :
    a = .fire ∨ a = .expire ∨ a = .schedule ∨ a.synthesises = true := by
  cases a <;> simp_all [Section.ofTimer]

theorem ofWork_cases (h : a.ofWork = true) :
    a = .dequeue ∨ a = .recover ∨ a.synthesises = true := by
  cases a <;> simp_all [Section.ofWork]

/-- The callback goes on with sections of its own, and does not arm the timer. -/
theorem exec_ofTimer (h : a.ofTimer = true) :
    (∀ b ∈ (exec a env dev).next, b.ofTimer = true) ∧
      ((exec a env dev).shared.hbTimerArmed = true → dev.hbTimerArmed = true) := by
  obtain rfl | rfl | rfl | hsynth := ofTimer_cases h
  · rw [exec]
    split
    · exact ⟨List.forall_mem_singleton.mpr rfl, fun hoff => by cases hoff⟩
    · exact ⟨List.forall_mem_nil _, id⟩
  · exact ⟨List.forall_mem_cons.mpr ⟨rfl, List.forall_mem_cons.mpr
      ⟨rfl, List.forall_mem_singleton.mpr rfl⟩⟩, id⟩
  · exact ⟨List.forall_mem_nil _, id⟩
  · obtain ⟨hlink, hnext⟩ := @exec_synthesises dev env a hsynth
    refine ⟨fun b hb => ofTimer_of_synthesises (hnext b hb), fun harmed => ?_⟩
    rwa [((exec_frame a env dev).1 hlink).2.1] at harmed

/-- The work goes on with sections of its own, and neither arms the timer nor queues
the work. -/
theorem exec_ofWork (h : a.ofWork = true) :
    (∀ b ∈ (exec a env dev).next, b.ofWork = true) ∧
      ((exec a env dev).shared.hbTimerArmed = true → dev.hbTimerArmed = true) ∧
      ((exec a env dev).shared.recoveryWorkQueued = true → dev.recoveryWorkQueued = true) := by
  obtain rfl | rfl | hsynth := ofWork_cases h
  · rw [exec]
    split
    · exact ⟨List.forall_mem_singleton.mpr rfl, id, fun hoff => by cases hoff⟩
    · exact ⟨List.forall_mem_nil _, id, id⟩
  · exact ⟨List.forall_mem_cons.mpr ⟨rfl, List.forall_mem_singleton.mpr rfl⟩, id, id⟩
  · obtain ⟨hlink, hnext⟩ := @exec_synthesises dev env a hsynth
    obtain ⟨-, harmed, hqueued⟩ := (exec_frame a env dev).1 hlink
    refine ⟨fun b hb => ofWork_of_synthesises (hnext b hb), ?_, ?_⟩
    · rw [harmed]
      exact id
    · rw [hqueued]
      exact id

theorem exec_owns {c : Caller} (h : c.owns a = true) :
    ∀ b ∈ (exec a env dev).next, c.owns b = true := by
  cases c with
  | file => exact fun b _ => rfl
  | timer => exact (exec_ofTimer h).1
  | work => exact (exec_ofWork h).1

end SafetyCoproDev

/-! ### What every step keeps -/

namespace Module

/-- What the driver has allocated, by what is left of its exit. -/
def resources : Option (List ExitStep) → Finset DriverResource
  | none => {.dev, .rxFifo, .txFifo, .pcpu}
  | some todo => ({.dev, .rxFifo, .txFifo, .pcpu} : Finset DriverResource).filter (·.freedBy ∈ todo)

def owned : Option Module → Finset DriverResource
  | none => ∅
  | some m => resources m.exit

/-- The calls are those of their callers, none on a file when none is open; and the
exit leaves no callback behind its `hrtimer_cancel` and no work behind its
`cancel_work_sync`. -/
structure Kept (m : Module) : Prop where
  owns : ∀ x ∈ m.pool.pending, x.1.owns x.2 = true
  closed : m.files = 0 → ∀ x ∈ m.pool.pending, x.1 ≠ .file
  exiting : ∀ todo, m.exit = some todo → m.files = 0 ∧ todo <:+ safetyCoproExit ∧ todo ≠ [] ∧
    (.timerDestroy ∉ todo →
      m.pool.shared.hbTimerArmed = false ∧ ∀ x ∈ m.pool.pending, x.1 ≠ .timer) ∧
    (.recoveryDestroy ∉ todo →
      m.pool.shared.recoveryWorkQueued = false ∧ ∀ x ∈ m.pool.pending, x.1 ≠ .work)

theorem idle_iff {m : Module} {c : Caller} :
    m.idle c = true ↔ ∀ x ∈ m.pool.pending, x.1 ≠ c := by
  rw [idle, List.all_eq_true]
  exact forall₂_congr fun x _ => bne_iff_ne

/-- The exit stops the timer before the work, and both before it frees anything. -/
theorem exit_order {todo : List ExitStep} (h : todo <:+ safetyCoproExit) :
    (.timerDestroy ∈ todo → .recoveryDestroy ∈ todo) ∧
      ∀ r : DriverResource, .recoveryDestroy ∈ todo → r.freedBy ∈ todo := by
  rw [← List.mem_tails] at h
  refine ⟨?_, fun r => ?_⟩
  · revert todo
    decide
  · cases r <;> revert todo <;> decide

/-- A step of the exit frees what it has still to free. -/
theorem exit_uses {s : ExitStep} {todo : List ExitStep} (h : s :: todo <:+ safetyCoproExit) :
    Leads (resources (some (s :: todo))) s.uses
      (if todo = [] then ∅ else resources (some todo)) := by
  simp only [safetyCoproExit, List.suffix_cons_iff, List.suffix_nil, List.cons.injEq,
    reduceCtorEq, or_false] at h
  obtain ⟨rfl, rfl⟩ | ⟨rfl, rfl⟩ | ⟨rfl, rfl⟩ | ⟨rfl, rfl⟩ | ⟨rfl, rfl⟩ | ⟨rfl, rfl⟩ |
    ⟨rfl, rfl⟩ | ⟨rfl, rfl⟩ := h <;> decide

theorem mem_resources (r : DriverResource) {exit : Option (List ExitStep)} :
    r ∈ resources exit ↔ ∀ todo, exit = some todo → r.freedBy ∈ todo := by
  have hall : r ∈ ({.dev, .rxFifo, .txFifo, .pcpu} : Finset DriverResource) := by
    cases r <;> decide
  cases exit with
  | none => exact ⟨fun _ todo htodo => (by cases htodo), fun _ => hall⟩
  | some todo =>
      rw [resources, Finset.mem_filter]
      refine ⟨fun h todo' heq => Option.some.inj heq ▸ h.2, fun h => ⟨hall, h todo rfl⟩⟩

namespace Kept
variable {m : Module} {c : Caller}

/-- While a call is under way, nothing has been freed. -/
theorem mem_resources (h : m.Kept) {x : Caller × Section} (hx : x ∈ m.pool.pending)
    (r : DriverResource) : r ∈ resources m.exit := by
  refine (Module.mem_resources r).mpr fun todo htodo => ?_
  obtain ⟨hfiles, hsuffix, -, htimer, hwork⟩ := h.exiting todo htodo
  obtain ⟨horder, hfreed⟩ := exit_order hsuffix
  by_contra hgone
  have hrecovery : .recoveryDestroy ∉ todo := fun hmem => hgone (hfreed r hmem)
  have htimer := htimer fun hmem => hrecovery (horder hmem)
  cases hc : x.1 with
  | file => exact h.closed hfiles x hx hc
  | timer => exact htimer.2 x hx hc
  | work => exact (hwork hrecovery).2 x hx hc

theorem start (h : m.Kept) {op : DevOp}
    (howns : ∀ a ∈ SafetyCoproDev.sections op, c.owns a = true)
    (hfile : c = .file → m.files ≠ 0)
    (htimer : c = .timer → m.pool.shared.hbTimerArmed = true)
    (hwork : c = .work → m.pool.shared.recoveryWorkQueued = true) : (m.start c op).Kept := by
  have hpending : ∀ x ∈ (m.start c op).pool.pending,
      x ∈ m.pool.pending ∨ ∃ a ∈ SafetyCoproDev.sections op, x = (c, a) := by
    intro x hx
    rw [Module.start, Interleave.pending_start] at hx
    obtain hx | hx := Multiset.mem_add.mp hx
    · exact Or.inl hx
    · obtain ⟨a, ha, rfl⟩ := List.mem_map.mp hx
      exact Or.inr ⟨a, ha, rfl⟩
  refine ⟨fun x hx => ?_, fun hfiles x hx => ?_, fun todo htodo => ?_⟩
  · obtain hx | ⟨a, ha, rfl⟩ := hpending x hx
    · exact h.owns x hx
    · exact howns a ha
  · obtain hx | ⟨a, -, rfl⟩ := hpending x hx
    · exact h.closed hfiles x hx
    · exact fun hc => hfile hc hfiles
  · obtain ⟨hfiles, hsuffix, hne, hstopped, hcancelled⟩ := h.exiting todo htodo
    refine ⟨hfiles, hsuffix, hne, fun hgone => ?_, fun hgone => ?_⟩
    · obtain ⟨harmed, hnone⟩ := hstopped hgone
      refine ⟨harmed, fun x hx => ?_⟩
      obtain hx | ⟨a, -, rfl⟩ := hpending x hx
      · exact hnone x hx
      · exact fun hc => Bool.false_ne_true (harmed.symm.trans (htimer hc))
    · obtain ⟨hqueued, hnone⟩ := hcancelled hgone
      refine ⟨hqueued, fun x hx => ?_⟩
      obtain hx | ⟨a, -, rfl⟩ := hpending x hx
      · exact hnone x hx
      · exact fun hc => Bool.false_ne_true (hqueued.symm.trans (hwork hc))

/-- A section of a call under way, with what follows it. -/
theorem go {x : Caller × Section} {M : Multiset (Caller × Section)} {env : SectionEnv}
    (h : m.Kept) (hpending : m.pool.pending = x ::ₘ M)
    {pool : Pool SafetyCoproDev (Caller × Section)}
    (hshared : pool.shared = (SafetyCoproDev.ownExec x env m.pool.shared).shared)
    (hpool : pool.pending = ((SafetyCoproDev.ownExec x env m.pool.shared).next :
      Multiset (Caller × Section)) + M) : { m with pool }.Kept := by
  obtain ⟨c, a⟩ := x
  have hx : (c, a) ∈ m.pool.pending := hpending ▸ Multiset.mem_cons_self _ _
  have hmem : ∀ y ∈ pool.pending, (y ∈ m.pool.pending) ∨
      (y.1 = c ∧ y.2 ∈ (SafetyCoproDev.exec a env m.pool.shared).next) := by
    intro y hy
    rw [hpool] at hy
    obtain hy | hy := Multiset.mem_add.mp hy
    · obtain ⟨b, hb, rfl⟩ := List.mem_map.mp hy
      exact Or.inr ⟨rfl, hb⟩
    · exact Or.inl (hpending ▸ Multiset.mem_cons_of_mem hy)
  have hnone {c' : Caller} (hc : ∀ y ∈ m.pool.pending, y.1 ≠ c') :
      ∀ y ∈ pool.pending, y.1 ≠ c' := by
    intro y hy
    obtain hy | ⟨heq, -⟩ := hmem y hy
    · exact hc y hy
    · exact heq ▸ hc (c, a) hx
  refine ⟨fun y hy => ?_, fun hfiles => hnone (h.closed hfiles), fun todo htodo => ?_⟩
  · obtain hy | ⟨heq, hb⟩ := hmem y hy
    · exact h.owns y hy
    · exact heq ▸ SafetyCoproDev.exec_owns (h.owns (c, a) hx) y.2 hb
  · obtain ⟨hfiles, hsuffix, hne, hstopped, hcancelled⟩ := h.exiting todo htodo
    have hfile := h.closed hfiles (c, a) hx
    refine ⟨hfiles, hsuffix, hne, fun hgone => ?_, fun hgone => ?_⟩
    · obtain ⟨harmed, htimer⟩ := hstopped hgone
      refine ⟨?_, hnone htimer⟩
      have hwork : c = .work := by
        cases c with
        | file => exact absurd rfl hfile
        | timer => exact absurd rfl (htimer _ hx)
        | work => rfl
      subst hwork
      rw [hshared]
      refine Bool.eq_false_iff.mpr fun hon => Bool.false_ne_true (harmed.symm.trans ?_)
      exact (SafetyCoproDev.exec_ofWork (h.owns _ hx)).2.1 hon
    · -- by now the callback and the work are both over
      have htimer := (hstopped fun hmem => hgone ((exit_order hsuffix).1 hmem)).2
      have hwork := (hcancelled hgone).2
      cases c with
      | file => exact absurd rfl hfile
      | timer => exact absurd rfl (htimer _ hx)
      | work => exact absurd rfl (hwork _ hx)

/-- A step of the exit, with what it frees. -/
theorem exit {s : ExitStep} {todo : List ExitStep} (h : m.Kept)
    (hexit : m.exit = some (s :: todo)) :
    (∀ m', (m.exitStep s todo).1 = some m' → m'.Kept) ∧
      Leads (resources m.exit) (m.exitStep s todo).2 (owned (m.exitStep s todo).1) := by
  obtain ⟨hfiles, hsuffix, -, hstopped, hcancelled⟩ := h.exiting _ hexit
  rw [exitStep]
  split
  · rename_i hready
    refine ⟨fun m' hm' => ?_, ?_⟩
    · split at hm'
      · cases hm'
      · rename_i hmore
        obtain rfl := Option.some.inj hm'
        have hlater : todo <:+ safetyCoproExit := (List.suffix_cons s todo).trans hsuffix
        refine ⟨h.owns, h.closed, fun todo' htodo' => ?_⟩
        obtain rfl := Option.some.inj htodo'
        refine ⟨hfiles, hlater, hmore, fun hgone => ?_, fun hgone => ?_⟩
        · by_cases hs : s = .timerDestroy
          · subst hs
            exact ⟨rfl, idle_iff.mp hready⟩
          · obtain ⟨harmed, htimer⟩ :=
              hstopped (List.not_mem_cons_of_ne_of_not_mem (Ne.symm hs) hgone)
            refine ⟨?_, htimer⟩
            cases s <;> first | exact harmed | exact absurd rfl hs
        · by_cases hs : s = .recoveryDestroy
          · subst hs
            exact ⟨rfl, idle_iff.mp hready⟩
          · obtain ⟨hqueued, hwork⟩ :=
              hcancelled (List.not_mem_cons_of_ne_of_not_mem (Ne.symm hs) hgone)
            refine ⟨?_, hwork⟩
            cases s <;> first | exact hqueued | exact absurd rfl hs
    · rw [hexit]
      have huses := exit_uses hsuffix
      split
      · rename_i hlast
        rwa [if_pos hlast] at huses
      · rename_i hmore
        rwa [if_neg hmore] at huses
  · exact ⟨fun m' hm' => Option.some.inj hm' ▸ h, Resources.leads_nil⟩

end Kept

/-- A failure of the loading frees what was allocated before it. -/
theorem load_kept (hbTimeoutMs : U32) (fifoDepth cpus : Nat) (fails : InitStep → Bool) :
    (∀ m, (load hbTimeoutMs fifoDepth cpus fails).1 = some m → m.Kept) ∧
      Leads ∅ (load hbTimeoutMs fifoDepth cpus fails).2
        (owned (load hbTimeoutMs fifoDepth cpus fails).1) := by
  have hnone {log : List (Use DriverResource)} (hlog : Leads ∅ log ∅) :
      (∀ m : Module, none = some m → m.Kept) ∧ Leads ∅ log (owned none) :=
    ⟨fun m hm => (by cases hm), hlog⟩
  rw [load]
  split
  · exact hnone Resources.leads_nil
  split
  · exact hnone (by decide)
  split
  · exact hnone (by decide)
  split
  · exact hnone (by decide)
  split
  · exact hnone (by decide)
  split
  · exact hnone (by decide)
  · have hall : Leads ∅ [.alloc .dev, .alloc .rxFifo, .alloc .txFifo, .alloc .pcpu]
        (resources none) := by decide
    refine ⟨fun m hm => ?_, hall⟩
    obtain rfl := Option.some.inj hm
    exact ⟨fun x hx => absurd hx (Multiset.notMem_zero x),
      fun _ x hx => absurd hx (Multiset.notMem_zero x), fun todo htodo => by cases htodo⟩

/-- What a step does is legal, and leaves what the driver then has. -/
theorem step_kept {s : Option Module} (h : ∀ m, s = some m → m.Kept) (input : ModuleInput) :
    (∀ m, (step s input).1 = some m → m.Kept) ∧
      Leads (owned s) (step s input).2 (owned (step s input).1) := by
  cases s with
  | none =>
      cases input with
      | load hbTimeoutMs fifoDepth cpus fails => exact load_kept hbTimeoutMs fifoDepth cpus fails
      | _ => exact ⟨h, Resources.leads_nil⟩
  | some m =>
      have hm := h m rfl
      have hkeep {m' : Module} (hm' : m'.Kept) (hexit : m'.exit = m.exit) :
          (∀ m'', some m' = some m'' → m''.Kept) ∧ Leads (owned (some m)) [] (owned (some m')) := by
        refine ⟨fun m'' heq => Option.some.inj heq ▸ hm', ?_⟩
        rw [owned, owned, hexit]
        exact Resources.leads_nil
      cases input with
      | load hbTimeoutMs fifoDepth cpus fails => exact hkeep hm rfl
      | openFile =>
          refine hkeep ?_ (by split <;> rfl)
          split
          · rename_i hexit
            refine ⟨hm.owns, fun hfiles => absurd hfiles (Nat.succ_ne_zero _), fun todo htodo => ?_⟩
            exact absurd (hexit.symm.trans htodo) (by simp)
          · exact hm
      | releaseFile =>
          refine hkeep ?_ (by split <;> rfl)
          split
          · rename_i hlast
            refine ⟨hm.owns, fun hfiles => ?_, fun todo htodo => ?_⟩
            · obtain hmore | hidle := hlast
              · exact absurd hfiles (by simp only; omega)
              · exact idle_iff.mp hidle
            · obtain ⟨hfiles, hexiting⟩ := hm.exiting todo htodo
              exact ⟨by rw [hfiles], hexiting⟩
          · exact hm
      | call op =>
          refine hkeep ?_ (by split <;> rfl)
          split
          · rename_i hopen
            exact hm.start (fun _ _ => rfl) (fun _ => Nat.ne_of_gt hopen.1)
              (fun hc => by cases hc) (fun hc => by cases hc)
          · exact hm
      | expire =>
          refine hkeep ?_ (by split <;> rfl)
          split
          · rename_i harmed
            refine hm.start ?_ (fun hc => by cases hc) (fun _ => harmed) (fun hc => by cases hc)
            exact List.forall_mem_cons.mpr ⟨rfl, List.forall_mem_singleton.mpr rfl⟩
          · exact hm
      | work =>
          refine hkeep ?_ (by split <;> rfl)
          split
          · rename_i hqueued
            refine hm.start ?_ (fun hc => by cases hc) (fun hc => by cases hc) (fun _ => hqueued)
            exact List.forall_mem_cons.mpr ⟨rfl, List.forall_mem_singleton.mpr rfl⟩
          · exact hm
      | run i env =>
          obtain hidle | ⟨x, M, hpending, hshared, hpool, hout⟩ :=
            @Interleave.step_run _ _ _ _ SafetyCoproDev.ownExec m.pool i env
          · rw [step, hidle]
            exact hkeep hm rfl
          · refine ⟨fun m' hm' => Option.some.inj hm' ▸ hm.go hpending hshared hpool, ?_⟩
            have hx : x ∈ m.pool.pending := hpending ▸ Multiset.mem_cons_self x M
            rw [step, hout]
            exact Resources.leads_touches fun r _ => hm.mem_resources hx r
      | unload =>
          rw [step]
          split
          · rename_i hgo
            refine ⟨fun m' hm' => Option.some.inj hm' ▸
              ⟨hm.owns, hm.closed, fun todo htodo => ?_⟩, ?_⟩
            · obtain rfl := Option.some.inj htodo
              exact ⟨hgo.1, List.suffix_rfl, by decide, fun hmem => absurd (by decide) hmem,
                fun hmem => absurd (by decide) hmem⟩
            · have hall : Leads (resources none) [] (resources (some safetyCoproExit)) := by decide
              rw [← hgo.2] at hall
              exact hall
          · exact hkeep hm rfl
      | exit =>
          rw [step]
          split
          · rename_i s todo hexit
            exact hm.exit hexit
          · exact hkeep hm rfl

theorem kept_run (inputs : List ModuleInput) :
    (∀ m, Machine.after step none inputs = some m → m.Kept) ∧
      Leads ∅ (Machine.outputs step none inputs) (owned (Machine.after step none inputs)) := by
  refine Machine.outputs_of_along
    (P := fun log (s : Option Module) => (∀ m, s = some m → m.Kept) ∧ Leads ∅ log (owned s))
    (G := fun _ _ => True) (fun log s input h _ => ?_) ?_ (Machine.along_of_forall ?_)
  · obtain ⟨hkept, hlog⟩ := step_kept h.1 input
    exact ⟨hkept, h.2.append hlog⟩
  · exact ⟨fun m hm => (by cases hm), Resources.leads_nil⟩
  · exact fun _ _ => trivial

/-- In every run of the driver, with any failure of its loading and any calls side by
side, nothing is used or freed that is not allocated, and nothing is left when the
driver is not loaded. -/
theorem resources_legal (inputs : List ModuleInput) :
    Leads ∅ (Machine.outputs step none inputs) (owned (Machine.after step none inputs)) :=
  (kept_run inputs).2

/-! ### The exit comes to its end -/

/-- At most how many sections the callback or the work goes on for. -/
def cost : Section → Nat
  | .countDrop _ _ => 3
  | .push .. => 4
  | .takeSeq _ => 5
  | .recover => 7
  | .expire | .dequeue => 8
  | .fire => 9
  | _ => 1

def work (M : Multiset (Caller × Section)) : Nat := (M.map fun x => cost x.2).sum

theorem cost_synthesises {a : Section} (h : a.synthesises = true) (env : SectionEnv)
    (dev : SafetyCoproDev) : ((SafetyCoproDev.exec a env dev).next.map cost).sum < cost a := by
  cases a with
  | push frame seq type event pusher =>
      cases pusher with
      | linkd vres => cases h
      | driver =>
          obtain heq | heq | heq := SafetyCoproDev.exec_push frame seq type event .driver env dev
          · rw [heq]
            exact (by decide : 0 < 4)
          · rw [heq]
            exact (by decide : 3 < 4)
          · rw [heq]
            exact (by decide : 2 < 4)
  | takeSeq s =>
      rw [SafetyCoproDev.exec_takeSeq]
      exact (by decide : 4 < 5)
  | countDrop seq type => exact (by decide : 2 < 3)
  | incRx _ | incDropped | trace _ | ret _ => exact Nat.zero_lt_one
  | _ => cases h

theorem cost_owns {c : Caller} (hc : c ≠ .file) {a : Section} (h : c.owns a = true)
    (env : SectionEnv) (dev : SafetyCoproDev) :
    ((SafetyCoproDev.exec a env dev).next.map cost).sum < cost a := by
  cases c with
  | file => exact absurd rfl hc
  | timer =>
      obtain rfl | rfl | rfl | hsynth := SafetyCoproDev.ofTimer_cases h
      · rw [SafetyCoproDev.exec]
        split
        · exact (by decide : 8 < 9)
        · exact (by decide : 0 < 9)
      · exact (by decide : 7 < 8)
      · exact Nat.zero_lt_one
      · exact cost_synthesises hsynth env dev
  | work =>
      obtain rfl | rfl | hsynth := SafetyCoproDev.ofWork_cases h
      · rw [SafetyCoproDev.exec]
        split
        · exact (by decide : 7 < 8)
        · exact (by decide : 0 < 8)
      · exact (by decide : 6 < 7)
      · exact cost_synthesises hsynth env dev

/-- The callback and the work come to their end. -/
theorem Kept.drained {m : Module} (h : m.Kept) (hfiles : m.files = 0) :
    ∃ turns m', (∀ input ∈ turns, ∃ i env, input = .run i env) ∧
      Machine.after step (some m) turns = some m' ∧ m'.Kept ∧ m'.exit = m.exit ∧
      m'.pool.pending = 0 := by
  induction hn : work m.pool.pending using Nat.strong_induction_on generalizing m with
  | _ n ih =>
  by_cases hnone : m.pool.pending = 0
  · exact ⟨[], m, List.forall_mem_nil _, rfl, h, rfl, hnone⟩
  · obtain ⟨i, x, rest, hcall⟩ := Interleave.exists_call hnone
    obtain ⟨M, hbefore, hafter⟩ :=
      @Interleave.pending_run _ _ _ _ SafetyCoproDev.ownExec m.pool i x rest hcall {}
    have hx : x ∈ m.pool.pending := Interleave.mem_pending hcall
    have hshared : (Interleave.step SafetyCoproDev.ownExec m.pool (.run i {})).1.shared =
        (SafetyCoproDev.ownExec x {} m.pool.shared).shared := by
      rw [Interleave.step_of_call hcall]
    have hless :
        work (Interleave.step SafetyCoproDev.ownExec m.pool (.run i {})).1.pending < n := by
      have hcost := cost_owns (h.closed hfiles x hx) (h.owns x hx) {} m.pool.shared
      rw [hafter, ← hn, hbefore, work, work, Multiset.map_add, Multiset.sum_add, Multiset.map_cons,
        Multiset.sum_cons, SafetyCoproDev.ownExec, Multiset.map_coe, Multiset.sum_coe, List.map_map]
      exact Nat.add_lt_add_right hcost _
    obtain ⟨turns, m', hturns, hrun, hkept, hexit, hdone⟩ :=
      ih _ hless (h.go hbefore hshared hafter) hfiles rfl
    refine ⟨.run i {} :: turns, m', ?_, hrun, hkept, hexit, hdone⟩
    exact List.forall_mem_cons.mpr ⟨⟨i, {}, rfl⟩, hturns⟩

/-- With no call under way, the exit runs through. -/
theorem unwound {m : Module} {todo : List ExitStep} (hexit : m.exit = some todo) (hne : todo ≠ [])
    (hnone : m.pool.pending = 0) :
    Machine.after step (some m) (List.replicate todo.length .exit) = none := by
  induction todo generalizing m with
  | nil => exact absurd rfl hne
  | cons s todo ih =>
      have hidle (c : Caller) : m.idle c = true := by
        refine idle_iff.mpr fun x hx => ?_
        rw [hnone] at hx
        exact absurd hx (Multiset.notMem_zero x)
      have hready : m.ready s = true := by cases s <;> first | rfl | exact hidle _
      have hstep : step (some m) .exit = m.exitStep s todo := by rw [step, hexit]
      rw [List.length_cons, List.replicate_succ, Machine.after_cons, hstep, exitStep, if_pos hready]
      by_cases hlast : todo = []
      · rw [if_pos hlast, hlast]
        rfl
      · rw [if_neg hlast]
        exact ih rfl hlast hnone

/-- Wherever the exit has come to, it comes to its end when the callback and the work
that are still under way go on. -/
theorem exit_completes {inputs : List ModuleInput} {m : Module}
    (hm : Machine.after step none inputs = some m) {todo : List ExitStep}
    (hexit : m.exit = some todo) :
    ∃ turns, (∀ input ∈ turns, input = .exit ∨ ∃ i env, input = .run i env) ∧
      Machine.after step none (inputs ++ turns) = none := by
  have hkept := (kept_run inputs).1 m hm
  obtain ⟨turns, m', hturns, hrun, hkept', hexit', hdone⟩ :=
    hkept.drained (hkept.exiting todo hexit).1
  rw [hexit] at hexit'
  refine ⟨turns ++ List.replicate todo.length .exit, fun input hinput => ?_, ?_⟩
  · obtain hinput | hinput := List.mem_append.mp hinput
    · exact Or.inr (hturns input hinput)
    · exact Or.inl (List.eq_of_mem_replicate hinput)
  · rw [Machine.after_append, hm, Machine.after_append, hrun]
    exact unwound hexit' (hkept'.exiting todo hexit').2.2.1 hdone

/-- The watchdog is armed over a file, the file is closed, and the driver is unloaded
while the callback runs. -/
def unloadedWhileFiring : List ModuleInput :=
  [.load 350 64 1 fun _ => false, .openFile, .call (.ioctl (.setHbTimeoutMs (some 100))),
    .run 0 {}, .run 0 {}, .run 0 {}, .run 0 {}, .releaseFile, .expire, .run 1 {}, .unload]

theorem exit_completes_whileFiring :
    ∃ m, Machine.after step none unloadedWhileFiring = some m ∧ m.files = 0 ∧
      m.idle .timer = false ∧
      ∃ turns, Machine.after step none (unloadedWhileFiring ++ turns) = none := by
  obtain ⟨m, hm⟩ : ∃ m, Machine.after step none unloadedWhileFiring = some m := ⟨_, rfl⟩
  have hexit : m.exit = some safetyCoproExit := by
    obtain rfl := Option.some.inj hm
    rfl
  obtain ⟨turns, -, hturns⟩ := exit_completes hm hexit
  refine ⟨m, hm, ?_, ?_, turns, hturns⟩
  · obtain rfl := Option.some.inj hm
    rfl
  · obtain rfl := Option.some.inj hm
    rfl

end Module

end SafetyCopro
