import SafetyCopro.Supervisor.EventLoop

/-!
The loop around the handlers, `EventLoop::run` of `event_loop.cpp`. Each turn
looks at the flag and the clock, waits, and serves what is ready. The time left
of the run is cast to an `int` before it is compared with the 200 ms a wait may
last, and `epoll_wait` takes a negative timeout for no limit at all.
-/

namespace SafetyCopro

/-- An entry of `events`, with what its handler gets from the system. -/
inductive Ready
  | timer (nowMs : I64)
  | wake (reports : List (RecoveryReport U16))
  | device (data : List U8)
deriving DecidableEq

inductive EpollResult
  | ready (events : List Ready)
  | eintr
  | failed
deriving DecidableEq

/-- What one turn of the loop reads: the flag, the clock, and how its wait ends. -/
structure LoopTurn where
  running : Bool := true
  nowMs : Int
  wait : EpollResult
deriving DecidableEq

inductive LoopEvent
  | waited (timeout : Int)
  | did (effect : Effect)
deriving DecidableEq

/-- The loop, with the bytes the assembler keeps between two reads. -/
structure EpollLoop where
  loop : EventLoop := {}
  buf : List U8 := []
deriving DecidableEq

/-- The `timeout` of a turn, unless the run is over. The cast to `int` keeps the
low 32 bits. -/
def epollTimeout (durationMs : U32) (startMs nowMs : Int) : Option Int :=
  let timeout := 200
  if 0 < durationMs then
    let elapsed := nowMs - startMs
    if elapsed ≥ durationMs.toNat then none
    else
      let remaining := Int.bmod (durationMs.toNat - elapsed) (2 ^ 32)
      some (if remaining < timeout then remaining else timeout)
  else some timeout

namespace EpollLoop

/-- The handler of one entry. -/
def serve (s : EpollLoop) : Ready → EpollLoop × List LoopEvent
  | .timer nowMs =>
      let (loop, effs) := s.loop.onHeartbeatTimeout nowMs
      ({ s with loop }, effs.map .did)
  | .wake reports =>
      let (loop, effs) := s.loop.drainRecoveryReports reports
      ({ s with loop }, effs.map .did)
  | .device data =>
      let (buf, loop, effs) := EventLoop.handleReadable s.buf s.loop data
      ({ loop, buf }, effs.map .did)

/-- `EventLoop::run`, from the first reading of the clock on. -/
def run (durationMs : U32) (startMs : Int) :
    EpollLoop → List LoopTurn → EpollLoop × List LoopEvent
  | s, [] => (s, [])
  | s, turn :: turns =>
      if turn.running then
        match epollTimeout durationMs startMs turn.nowMs with
        | none => (s, [])
        | some timeout =>
            match turn.wait with
            | .failed => (s, [.waited timeout])
            | .eintr =>
                let r := run durationMs startMs s turns
                (r.1, .waited timeout :: r.2)
            | .ready events =>
                let r := run durationMs startMs (Machine.after serve s events) turns
                (r.1, .waited timeout :: Machine.outputs serve s events ++ r.2)
      else (s, [])

end EpollLoop

/-- No wait lasts longer than 200 ms, and none is skipped. -/
def Responsive (events : List LoopEvent) : Prop :=
  ∀ timeout, .waited timeout ∈ events → 0 < timeout ∧ timeout < 201

/-- A clock that does not run backwards, from the start of the loop on. -/
def Steady (startMs : Int) (turns : List LoopTurn) : Prop :=
  (startMs :: turns.map LoopTurn.nowMs).Pairwise (· ≤ ·)

/-! ### One turn -/

section Turn
variable {durationMs : U32} {startMs nowMs timeout : Int}

/-- The cast is exact below `2 ^ 31` and gives a negative number above it. -/
theorem epollTimeout_good (hpos : 0 < durationMs) (hclock : startMs ≤ nowMs)
    (h : epollTimeout durationMs startMs nowMs = some timeout) :
    0 < timeout ∧ timeout < 201 ↔ (durationMs.toNat : Int) - (nowMs - startMs) < 2 ^ 31 := by
  have hfits := durationMs.isLt
  rw [epollTimeout, if_pos hpos] at h
  dsimp only at h
  split at h
  · cases h
  rename_i hleft
  obtain rfl := Option.some.inj h
  generalize hleft' : (durationMs.toNat : Int) - (nowMs - startMs) = left
  have hlt : left < 2 ^ 32 := by omega
  have h32 : ((2 ^ 32 : Nat) : Int) = 2 ^ 32 := rfl
  by_cases hsmall : left < 2 ^ 31
  · have hcast : Int.bmod left (2 ^ 32) = left :=
      Int.bmod_eq_of_le (by omega) (by omega)
    rw [hcast]
    refine iff_of_true ?_ hsmall
    split <;> omega
  · have hcast : Int.bmod left (2 ^ 32) = left - 2 ^ 32 := by
      rw [← Int.sub_bmod_right, h32]
      exact Int.bmod_eq_of_le (by omega) (by omega)
    rw [hcast, if_pos (by omega)]
    exact iff_of_false (by omega) hsmall

end Turn

namespace EpollLoop

theorem waited_not_mem_serve (s : EpollLoop) (ready : Ready) (timeout : Int) :
    .waited timeout ∉ (s.serve ready).2 := by
  cases ready <;> simp [serve]

theorem waited_not_mem_outputs (s : EpollLoop) (events : List Ready) (timeout : Int) :
    .waited timeout ∉ Machine.outputs serve s events := by
  induction events generalizing s with
  | nil => exact List.not_mem_nil
  | cons ready events ih =>
      intro hmem
      obtain hmem | hmem := List.mem_append.mp hmem
      · exact waited_not_mem_serve s ready timeout hmem
      · exact ih _ hmem

variable {durationMs : U32} {startMs timeout : Int} {s : EpollLoop} {turn : LoopTurn}
  {turns : List LoopTurn}

/-- A turn of a run that is not over waits. -/
theorem waited_mem_run (hrunning : turn.running = true)
    (h : epollTimeout durationMs startMs turn.nowMs = some timeout) :
    .waited timeout ∈ (run durationMs startMs s (turn :: turns)).2 := by
  rw [run, if_pos hrunning, h]
  cases turn.wait <;> exact List.mem_cons_self

/-- Every wait is that of a turn. -/
theorem turn_of_waited (hmem : .waited timeout ∈ (run durationMs startMs s turns).2) :
    ∃ turn ∈ turns, epollTimeout durationMs startMs turn.nowMs = some timeout := by
  induction turns generalizing s with
  | nil => cases hmem
  | cons turn turns ih =>
      have hlater : ∀ s, .waited timeout ∈ (run durationMs startMs s turns).2 →
          ∃ t ∈ turn :: turns, epollTimeout durationMs startMs t.nowMs = some timeout := by
        intro s hmem
        obtain ⟨t, ht, htimeout⟩ := ih hmem
        exact ⟨t, List.mem_cons_of_mem _ ht, htimeout⟩
      have hhere : ∀ now, epollTimeout durationMs startMs turn.nowMs = some now →
          LoopEvent.waited timeout = .waited now →
          ∃ t ∈ turn :: turns, epollTimeout durationMs startMs t.nowMs = some timeout := by
        intro now hnow heq
        rw [← LoopEvent.waited.inj heq] at hnow
        exact ⟨turn, List.mem_cons_self, hnow⟩
      rw [run] at hmem
      split at hmem
      · split at hmem
        · cases hmem
        rename_i now hnow
        split at hmem
        · exact hhere now hnow (List.mem_singleton.mp hmem)
        · obtain heq | hmem := List.mem_cons.mp hmem
          · exact hhere now hnow heq
          · exact hlater s hmem
        · obtain heq | hmem := List.mem_cons.mp hmem
          · exact hhere now hnow heq
          obtain hmem | hmem := List.mem_append.mp hmem
          · exact absurd hmem (waited_not_mem_outputs _ _ _)
          · exact hlater _ hmem
      · cases hmem

theorem run_stopped (h : ¬ turn.running = true) :
    (run durationMs startMs s (turn :: turns)).2 = [] := by
  rw [run, if_neg h]

/-! ### Runs -/

/-- The time left at the first turn decides about a whole run, since it only gets
less: the waits keep their limit if and only if it is below `2 ^ 31`. So no clock
breaks the limit exactly when the duration itself is below. -/
theorem run_responsive_iff {durationMs : U32} (hpos : 0 < durationMs) :
    (∀ (startMs : Int) (s : EpollLoop) (turns : List LoopTurn), Steady startMs turns →
      (Responsive (run durationMs startMs s turns).2 ↔
        ∀ turn, turns.head? = some turn → turn.running = true →
          (durationMs.toNat : Int) - (turn.nowMs - startMs) < 2 ^ 31)) ∧
    ((∀ (startMs : Int) (s : EpollLoop) (turns : List LoopTurn), Steady startMs turns →
      Responsive (run durationMs startMs s turns).2) ↔ durationMs.toNat < 2 ^ 31) := by
  have hrun : ∀ (startMs : Int) (s : EpollLoop) (turns : List LoopTurn), Steady startMs turns →
      (Responsive (run durationMs startMs s turns).2 ↔
        ∀ turn, turns.head? = some turn → turn.running = true →
          (durationMs.toNat : Int) - (turn.nowMs - startMs) < 2 ^ 31) := by
    intro startMs s turns hclock
    cases turns with
    | nil => exact iff_of_true (fun _ hmem => by cases hmem) (fun _ hhead => by cases hhead)
    | cons first turns =>
        obtain ⟨hstart, hlater⟩ := List.pairwise_cons.mp hclock
        obtain ⟨hfirst, -⟩ := List.pairwise_cons.mp hlater
        have hnow : startMs ≤ first.nowMs := hstart _ List.mem_cons_self
        constructor
        · intro hgood turn hturn hrunning
          obtain rfl := Option.some.inj hturn
          by_contra hlong
          -- the run is far from over, so the first turn waits
          obtain ⟨timeout, htimeout⟩ :
              ∃ timeout, epollTimeout durationMs startMs first.nowMs = some timeout := by
            rw [epollTimeout, if_pos hpos]
            dsimp only
            rw [if_neg (by omega)]
            exact ⟨_, rfl⟩
          exact hlong ((epollTimeout_good hpos hnow htimeout).mp
            (hgood _ (waited_mem_run hrunning htimeout)))
        · intro hshort timeout hmem
          by_cases hrunning : first.running = true
          · have hleft := hshort first rfl hrunning
            obtain ⟨turn, hturn, htimeout⟩ := turn_of_waited hmem
            have hle : first.nowMs ≤ turn.nowMs := by
              obtain rfl | hturn := List.mem_cons.mp hturn
              · exact Int.le_refl _
              · exact hfirst _ (List.mem_map_of_mem hturn)
            exact (epollTimeout_good hpos (Int.le_trans hnow hle) htimeout).mpr (by omega)
          · rw [run_stopped hrunning] at hmem
            cases hmem
  refine ⟨hrun, fun h => ?_, fun h startMs s turns hclock => ?_⟩
  · have hclock : Steady 0 [⟨true, 0, .eintr⟩] := by simp [Steady]
    have hfirst := (hrun 0 {} _ hclock).mp (h 0 {} _ hclock) _ rfl rfl
    dsimp only at hfirst
    omega
  · refine (hrun startMs s turns hclock).mpr fun turn hturn _ => ?_
    obtain ⟨hstart, -⟩ := List.pairwise_cons.mp hclock
    have hnow := hstart _ (List.mem_map_of_mem (List.mem_of_mem_head? hturn))
    omega

/-- A run of one minute that is interrupted and then stopped. -/
theorem run_responsive_minute :
    Responsive (run 60000 5 {}
      [⟨true, 5, .eintr⟩, ⟨true, 150, .ready []⟩, ⟨false, 350, .eintr⟩]).2 :=
  (run_responsive_iff (by decide)).2.mpr (by decide) 5 {} _ (by simp [Steady])

/-- A run of `2 ^ 31` ms waits without a limit at its first turn. -/
theorem not_run_responsive :
    ¬ ∀ (durationMs : U32) (startMs : Int) (s : EpollLoop) (turns : List LoopTurn),
      0 < durationMs → Steady startMs turns →
        Responsive (run durationMs startMs s turns).2 := by
  intro h
  have hgood := h 0x80000000 0 {} [⟨true, 0, .eintr⟩] (by decide) (by simp [Steady])
    (-2147483648) (by decide)
  exact absurd hgood.1 (by decide)

end EpollLoop

end SafetyCopro
