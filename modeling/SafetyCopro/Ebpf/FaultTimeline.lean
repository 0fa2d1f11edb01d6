import SafetyCopro.Ebpf.SafetyTrace

/-!
The fault cycles of the tracing tool's report, `write_fault_timeline` of
`ebpf/safety_trace_user.c`. Two loops over the recorded events pair every
timeout with the recovery and the restored heartbeat behind it; a time of zero
stands for an event that was not found.
-/

namespace SafetyCopro

def tlTimeout : U32 := 0
def tlRecovery : U32 := 1
def tlHeartbeatRestored : U32 := 2

/-- An entry of `g_timeline`. -/
structure RecordedEvent where
  ts : U64
  kind : U32
  aux : U32 := 0
deriving DecidableEq, Repr

/-- A row of the table: its number, the time of the timeout, and the three
durations, with `n/a` for none. -/
structure FaultCycle where
  cycle : Nat
  tTimeout : U64
  toRecovery : Option U64
  toRestored : Option U64
  total : Option U64
deriving DecidableEq, Repr

def FaultCycle.row (cycle : Nat) (tTimeout tRecovery tRestored : U64) : FaultCycle where
  cycle
  tTimeout
  toRecovery := if tRecovery ≠ 0 then some (tRecovery - tTimeout) else none
  toRestored := if tRecovery ≠ 0 ∧ tRestored ≠ 0 then some (tRestored - tRecovery) else none
  total := if tRestored ≠ 0 then some (tRestored - tTimeout) else none

/-- The inner loop over the events from `j` on: `t_recovery`, `t_restored` and the
`j` it leaves. `t_restored` is set only where the loop ends. -/
def cycleScan : List RecordedEvent → Nat → U64 → U64 × U64 × Nat
  | [], j, tRecovery => (tRecovery, 0, j)
  | e :: events, j, tRecovery =>
      if e.kind = tlTimeout then (tRecovery, 0, j)
      else if tRecovery = 0 ∧ e.kind = tlRecovery then cycleScan events (j + 1) e.ts
      else if tRecovery ≠ 0 ∧ e.kind = tlHeartbeatRestored then (tRecovery, e.ts, j)
      else cycleScan events (j + 1) tRecovery

/-- The outer loop from `i` on; none if it has not ended when the fuel is used up. -/
def cycleLoop (timeline : List RecordedEvent) : Nat → Nat → Nat → Option (List FaultCycle)
  | 0, _, _ => none
  | fuel + 1, i, cycle =>
      match timeline[i]? with
      | none => some []
      | some e =>
          if e.kind ≠ tlTimeout then cycleLoop timeline fuel (i + 1) cycle
          else
            let (tRecovery, tRestored, j) := cycleScan (timeline.drop (i + 1)) (i + 1) 0
            let row := FaultCycle.row (cycle + 1) e.ts tRecovery tRestored
            (cycleLoop timeline fuel (if j > i then j else i + 1) (cycle + 1)).map (row :: ·)

/-- `write_fault_timeline`: the rows of its table of cycles. -/
def writeFaultTimeline (timeline : List RecordedEvent) (fuel : Nat) : Option (List FaultCycle) :=
  if timeline.length = 0 then some [] else cycleLoop timeline fuel 0 0

/-! ### The pairing rule -/

section Rule
variable (timeline : List RecordedEvent)

def KindAt (kind : U32) (i : Nat) : Prop := ∃ e, timeline[i]? = some e ∧ e.kind = kind

instance (kind : U32) (i : Nat) : Decidable (KindAt timeline kind i) :=
  decidable_of_iff ((timeline[i]?.map RecordedEvent.kind) = some kind) (by simp [KindAt])

def timeAt (i : Nat) : U64 := (timeline[i]?.map RecordedEvent.ts).getD 0

/-- The first event of a kind from `lo` on and before `hi`, if there is one. -/
def FirstIn (kind : U32) (lo hi : Nat) : Option Nat → Prop
  | some k => lo ≤ k ∧ k < hi ∧ KindAt timeline kind k ∧
      ∀ i, lo ≤ i → i < k → ¬ KindAt timeline kind i
  | none => ∀ i, lo ≤ i → i < hi → ¬ KindAt timeline kind i

/-- Where the events of a timeout end: at the next timeout or the end. -/
structure Window (i next : Nat) : Prop where
  lt : i < next
  none : ∀ k, i < k → k < next → ¬ KindAt timeline tlTimeout k
  stop : next = timeline.length ∨ KindAt timeline tlTimeout next

/-- The events of a cycle, by their places. -/
structure CycleEvents where
  timeout : Nat
  recovery : Option Nat
  restored : Option Nat
deriving DecidableEq, Repr

namespace CycleEvents
variable (p : CycleEvents)

def all : List Nat := p.timeout :: (p.recovery.toList ++ p.restored.toList)

/-- The row the events make. -/
def row (cycle : Nat) : FaultCycle where
  cycle
  tTimeout := timeAt timeline p.timeout
  toRecovery := p.recovery.map fun r => timeAt timeline r - timeAt timeline p.timeout
  toRestored := p.restored.bind fun s => p.recovery.map fun r =>
    timeAt timeline s - timeAt timeline r
  total := p.restored.map fun s => timeAt timeline s - timeAt timeline p.timeout

/-- The recovery is the first behind the timeout and before the next one, and the
restored heartbeat is the first behind the recovery and before the next timeout. -/
def Follows (next : Nat) : Prop :=
  FirstIn timeline tlRecovery (p.timeout + 1) next p.recovery ∧
    match p.recovery with
    | some r => FirstIn timeline tlHeartbeatRestored (r + 1) next p.restored
    | none => p.restored = none

end CycleEvents

end Rule

/-! ### The inner loop -/

variable {timeline : List RecordedEvent}

theorem FirstIn.skip {kind : U32} {lo hi : Nat} {found : Option Nat}
    (h : FirstIn timeline kind (lo + 1) hi found) (hlo : ¬ KindAt timeline kind lo) :
    FirstIn timeline kind lo hi found := by
  have hfirst : ∀ {P : Nat → Prop}, (∀ i, lo + 1 ≤ i → P i → ¬ KindAt timeline kind i) →
      ∀ i, lo ≤ i → P i → ¬ KindAt timeline kind i := by
    intro P hlater i hi hP
    obtain rfl | hlt := Nat.eq_or_lt_of_le hi
    · exact hlo
    · exact hlater i hlt hP
  cases found with
  | none => exact hfirst h
  | some k =>
      obtain ⟨hle, hlt, hkind, hbefore⟩ := h
      exact ⟨by omega, hlt, hkind, hfirst hbefore⟩

/-- The time of an event, and zero for none. -/
def timeOf (timeline : List RecordedEvent) : Option Nat → U64
  | none => 0
  | some k => timeAt timeline k

section Scan
variable {i next : Nat}

theorem timeAt_of_get {e : RecordedEvent} (h : timeline[i]? = some e) :
    timeAt timeline i = e.ts := by
  rw [timeAt, h]
  rfl

theorem drop_of_get {e : RecordedEvent} (h : timeline[i]? = some e) :
    timeline.drop i = e :: timeline.drop (i + 1) := by
  obtain ⟨hlt, rfl⟩ := List.getElem?_eq_some_iff.mp h
  exact List.drop_eq_getElem_cons hlt

theorem kindAt_of_get {e : RecordedEvent} (h : timeline[i]? = some e) (kind : U32) :
    KindAt timeline kind i ↔ e.kind = kind := by
  refine ⟨fun ⟨e', he', hkind⟩ => ?_, fun hkind => ⟨e, h, hkind⟩⟩
  obtain rfl : e = e' := Option.some.inj (h.symm.trans he')
  exact hkind

theorem Window.le_length (h : Window timeline i next) : next ≤ timeline.length := by
  obtain hnext | ⟨e, he, -⟩ := h.stop
  · exact Nat.le_of_eq hnext
  · exact Nat.le_of_lt (List.getElem?_eq_some_iff.mp he).1

theorem Window.event (h : Window timeline i next) {j : Nat} (hj : i < j) (hlt : j < next) :
    ∃ e, timeline[j]? = some e ∧ e.kind ≠ tlTimeout := by
  have hlen : j < timeline.length := Nat.lt_of_lt_of_le hlt h.le_length
  have he := List.getElem?_eq_getElem hlen
  exact ⟨_, he, mt (kindAt_of_get he tlTimeout).mpr (h.none j hj hlt)⟩

/-- At the end of the window the loop stops. -/
theorem cycleScan_stop (hstop : next = timeline.length ∨ KindAt timeline tlTimeout next)
    (tRecovery : U64) : cycleScan (timeline.drop next) next tRecovery = (tRecovery, 0, next) := by
  obtain rfl | ⟨e, he, hkind⟩ := hstop
  · rw [List.drop_length]
    rfl
  · rw [drop_of_get he, cycleScan, if_pos hkind]

/-- The loop behind a recovery looks for the restored heartbeat. -/
theorem cycleScan_restored (hwindow : Window timeline i next) {tRecovery : U64}
    (hrecovery : tRecovery ≠ 0) {n j : Nat} (hn : j + n = next) (hj : i < j) :
    ∃ s j', cycleScan (timeline.drop j) j tRecovery = (tRecovery, timeOf timeline s, j') ∧
      FirstIn timeline tlHeartbeatRestored j next s ∧ j ≤ j' ∧ j' ≤ next := by
  induction n generalizing j with
  | zero =>
      obtain rfl : j = next := hn
      exact ⟨none, j, cycleScan_stop hwindow.stop tRecovery, fun k hk hlt => by omega,
        Nat.le_refl j, Nat.le_refl j⟩
  | succ n ih =>
      obtain ⟨e, he, hkind⟩ := hwindow.event hj (by omega)
      have hno : ¬ (tRecovery = 0 ∧ e.kind = tlRecovery) := fun h => hrecovery h.1
      rw [drop_of_get he, cycleScan, if_neg hkind, if_neg hno]
      by_cases hhere : e.kind = tlHeartbeatRestored
      · rw [if_pos ⟨hrecovery, hhere⟩, ← timeAt_of_get he]
        exact ⟨some j, j, rfl, ⟨Nat.le_refl j, by omega, ⟨e, he, hhere⟩, fun k hk hlt => by omega⟩,
          Nat.le_refl j, by omega⟩
      · obtain ⟨s, j', hscan, hfirst, hle, hnext⟩ := @ih (j + 1) (by omega) (by omega)
        rw [if_neg fun h => hhere h.2, hscan]
        exact ⟨s, j', rfl, hfirst.skip (mt (kindAt_of_get he _).mp hhere), by omega, hnext⟩

/-- The loop from the timeout on. -/
theorem cycleScan_recovery (hwindow : Window timeline i next)
    (hts : ∀ e ∈ timeline, e.ts ≠ 0) {n j : Nat} (hn : j + n = next) (hj : i < j) :
    ∃ r s j', cycleScan (timeline.drop j) j 0 = (timeOf timeline r, timeOf timeline s, j') ∧
      FirstIn timeline tlRecovery j next r ∧
      (match r with
        | some k => FirstIn timeline tlHeartbeatRestored (k + 1) next s
        | none => s = none) ∧ j ≤ j' ∧ j' ≤ next := by
  induction n generalizing j with
  | zero =>
      obtain rfl : j = next := hn
      exact ⟨none, none, j, cycleScan_stop hwindow.stop 0, fun k hk hlt => by omega, rfl,
        Nat.le_refl j, Nat.le_refl j⟩
  | succ n ih =>
      obtain ⟨e, he, hkind⟩ := hwindow.event hj (by omega)
      rw [drop_of_get he, cycleScan, if_neg hkind]
      by_cases hhere : e.kind = tlRecovery
      · have hne := hts e (List.mem_of_getElem? he)
        obtain ⟨s, j', hscan, hfirst, hle, hnext⟩ :=
          cycleScan_restored hwindow hne (by omega : j + 1 + n = next) (by omega)
        rw [if_pos ⟨rfl, hhere⟩, hscan, ← timeAt_of_get he]
        exact ⟨some j, s, j', rfl,
          ⟨Nat.le_refl j, by omega, ⟨e, he, hhere⟩, fun k hk hlt => by omega⟩, hfirst, by omega,
          hnext⟩
      · obtain ⟨r, s, j', hscan, hfirst, hrestored, hle, hnext⟩ := @ih (j + 1) (by omega) (by omega)
        rw [if_neg fun h => hhere h.2, if_neg fun h => h.1 rfl, hscan]
        exact ⟨r, s, j', rfl, hfirst.skip (mt (kindAt_of_get he _).mp hhere), hrestored, by omega,
          hnext⟩

end Scan

/-! ### The outer loop -/

/-- Every timeout has a window. -/
theorem exists_window {i : Nat} (hi : i < timeline.length) : ∃ next, Window timeline i next := by
  have hgen : ∀ n j, i < j → j + n = timeline.length →
      (∀ k, i < k → k < j → ¬ KindAt timeline tlTimeout k) → ∃ next, Window timeline i next := by
    intro n
    induction n with
    | zero => exact fun j hj hn hnone => ⟨j, hj, hnone, Or.inl hn⟩
    | succ n ih =>
        intro j hj hn hnone
        by_cases hhere : KindAt timeline tlTimeout j
        · exact ⟨j, hj, hnone, Or.inr hhere⟩
        · refine ih (j + 1) (by omega) (by omega) fun k hk hlt => ?_
          obtain rfl | hlt := Nat.eq_or_lt_of_le (Nat.le_of_lt_succ hlt)
          · exact hhere
          · exact hnone k hk hlt
  exact hgen (timeline.length - (i + 1)) (i + 1) (Nat.lt_succ_self i) (by omega)
    fun k hk hlt => by omega

theorem timeAt_ne_zero (hts : ∀ e ∈ timeline, e.ts ≠ 0) {kind : U32} {i : Nat}
    (h : KindAt timeline kind i) : timeAt timeline i ≠ 0 := by
  obtain ⟨e, he, -⟩ := h
  rw [timeAt_of_get he]
  exact hts e (List.mem_of_getElem? he)

/-- With no time zero, the loop's row is that of the events. -/
theorem row_eq (hts : ∀ e ∈ timeline, e.ts ≠ 0) {p : CycleEvents} {next : Nat}
    (h : p.Follows timeline next) (cycle : Nat) :
    FaultCycle.row cycle (timeAt timeline p.timeout) (timeOf timeline p.recovery)
      (timeOf timeline p.restored) = p.row timeline cycle := by
  obtain ⟨timeout, recovery, restored⟩ := p
  obtain ⟨hrecovery, hrestored⟩ := h
  cases recovery with
  | none =>
      obtain rfl : restored = none := hrestored
      rfl
  | some r =>
      have hr := timeAt_ne_zero hts hrecovery.2.2.1
      cases restored with
      | none =>
          have hzero : ¬ (0 : U64) ≠ 0 := fun h => h rfl
          dsimp only [FaultCycle.row, CycleEvents.row, timeOf]
          rw [if_pos hr, if_neg hzero, if_neg fun h => hzero h.2]
          rfl
      | some s =>
          have hs := timeAt_ne_zero hts hrestored.2.2.1
          dsimp only [FaultCycle.row, CycleEvents.row, timeOf]
          rw [if_pos hr, if_pos hs, if_pos ⟨hr, hs⟩]
          rfl

theorem filter_timeouts_skip {i j : Nat} (hle : i ≤ j) (hj : j ≤ timeline.length)
    (hnone : ∀ k, i ≤ k → k < j → ¬ KindAt timeline tlTimeout k) :
    (List.range' i (timeline.length - i)).filter (fun k => KindAt timeline tlTimeout k) =
      (List.range' j (timeline.length - j)).filter (fun k => KindAt timeline tlTimeout k) := by
  have hsplit : List.range' i (timeline.length - i) =
      List.range' i (j - i) ++ List.range' j (timeline.length - j) := by
    have happend := List.range'_append_1 (s := i) (m := j - i) (n := timeline.length - j)
    rw [Nat.add_sub_cancel' hle] at happend
    rw [happend]
    congr 1
    omega
  have hnil : (List.range' i (j - i)).filter (fun k => KindAt timeline tlTimeout k) = [] := by
    refine List.filter_eq_nil_iff.mpr fun k hk => ?_
    obtain ⟨hlow, hhigh⟩ := List.mem_range'_1.mp hk
    simpa using hnone k hlow (by omega)
  rw [hsplit, List.filter_append, hnil, List.nil_append]

theorem cycleLoop_eq (hts : ∀ e ∈ timeline, e.ts ≠ 0) {i : Nat} (hi : i ≤ timeline.length) :
    ∃ pairs : List CycleEvents,
      (∀ fuel cycle, timeline.length < fuel + i →
        cycleLoop timeline fuel i cycle =
          some (pairs.mapIdx fun k p => p.row timeline (cycle + k + 1))) ∧
      pairs.map CycleEvents.timeout = (List.range' i (timeline.length - i)).filter
        (fun k => KindAt timeline tlTimeout k) ∧
      ∀ p ∈ pairs, ∃ next, Window timeline p.timeout next ∧ p.Follows timeline next := by
  -- the loop only moves forward
  induction hn : timeline.length - i using Nat.strongRecOn generalizing i with
  | ind n ih =>
      subst hn
      have hfuel : ∀ fuel, timeline.length < fuel + i → ∃ fuel', fuel = fuel' + 1 :=
        fun fuel hfuel => Nat.exists_eq_add_one.mpr (by omega)
      cases he : timeline[i]? with
      | none =>
          have hend : timeline.length - i = 0 := by
            have hge := List.getElem?_eq_none_iff.mp he
            omega
          refine ⟨[], fun fuel cycle hlt => ?_, ?_, List.forall_mem_nil _⟩
          · obtain ⟨fuel, rfl⟩ := hfuel fuel hlt
            rw [cycleLoop, he]
            rfl
          · rw [hend]
            rfl
      | some e =>
          have hlt := (List.getElem?_eq_some_iff.mp he).1
          have hrange : List.range' i (timeline.length - i) =
              i :: List.range' (i + 1) (timeline.length - (i + 1)) := by
            rw [← List.range'_succ]
            congr 1
            omega
          have hkindAt := kindAt_of_get he tlTimeout
          rw [hrange]
          by_cases hkind : e.kind = tlTimeout
          · obtain ⟨next, hwindow⟩ := exists_window hlt
            obtain ⟨r, s, j, hscan, hrecovery, hrestored, hle, hnext⟩ :=
              cycleScan_recovery hwindow hts (by have := hwindow.lt; omega :
                i + 1 + (next - (i + 1)) = next) (Nat.lt_succ_self i)
            have hj : j ≤ timeline.length := Nat.le_trans hnext hwindow.le_length
            have hfollows : CycleEvents.Follows timeline ⟨i, r, s⟩ next := ⟨hrecovery, hrestored⟩
            have hskip := filter_timeouts_skip hle hj fun k hk hlt =>
              hwindow.none k (by omega) (by omega)
            obtain ⟨pairs, hloop, htimeouts, hpairs⟩ :=
              ih (timeline.length - j) (by omega) hj rfl
            refine ⟨⟨i, r, s⟩ :: pairs, fun fuel cycle hlt => ?_, ?_,
              List.forall_mem_cons.mpr ⟨⟨next, hwindow, hfollows⟩, hpairs⟩⟩
            · obtain ⟨fuel, rfl⟩ := hfuel fuel hlt
              rw [cycleLoop, he]
              dsimp only
              rw [if_neg (not_not_intro hkind), hscan]
              dsimp only
              rw [if_pos (Nat.lt_of_succ_le hle), hloop fuel (cycle + 1) (by omega),
                ← timeAt_of_get he, row_eq hts hfollows, Option.map_some, List.mapIdx_cons]
              congr 3
              funext k p
              congr 1
              omega
            · rw [List.filter_cons_of_pos (by simpa using hkindAt.mpr hkind), hskip, ← htimeouts,
                List.map_cons]
          · obtain ⟨pairs, hloop, htimeouts, hpairs⟩ :=
              ih (timeline.length - (i + 1)) (by omega) (by omega : i + 1 ≤ _) rfl
            refine ⟨pairs, fun fuel cycle hlt => ?_, ?_, hpairs⟩
            · obtain ⟨fuel, rfl⟩ := hfuel fuel hlt
              rw [cycleLoop, he]
              dsimp only
              rw [if_pos hkind]
              exact hloop fuel cycle (by omega)
            · rw [List.filter_cons_of_neg (by simpa using mt hkindAt.mp hkind), htimeouts]

/-! ### The cycles -/

/-- The events of a cycle lie in its window, one behind the other. -/
theorem CycleEvents.Follows.bounds {p : CycleEvents} {next : Nat}
    (h : p.Follows timeline next) (hnext : p.timeout < next) :
    p.all.Pairwise (· < ·) ∧ ∀ k ∈ p.all, p.timeout ≤ k ∧ k < next := by
  obtain ⟨timeout, recovery, restored⟩ := p
  obtain ⟨hrecovery, hrestored⟩ := h
  cases recovery with
  | none =>
      obtain rfl : restored = none := hrestored
      simpa [all] using hnext
  | some r =>
      have hr : timeout < r ∧ r < next := ⟨hrecovery.1, hrecovery.2.1⟩
      cases restored with
      | none =>
          simp [all]
          omega
      | some s =>
          have hs : r < s ∧ s < next := ⟨hrestored.1, hrestored.2.1⟩
          simp [all]
          omega

/-- The report ends, and has one row for each timeout, in their order. A row's
recovery is the first one behind the timeout, and its restored heartbeat the
first one behind the recovery, both before the next timeout; no event makes part
of two rows. -/
theorem writeFaultTimeline_cycles {timeline : List RecordedEvent}
    (hts : ∀ e ∈ timeline, e.ts ≠ 0) :
    ∃ cycles : List CycleEvents,
      (∀ fuel, timeline.length < fuel →
        writeFaultTimeline timeline fuel =
          some (cycles.mapIdx fun k p => p.row timeline (k + 1))) ∧
      cycles.map CycleEvents.timeout = (List.range timeline.length).filter
        (fun i => KindAt timeline tlTimeout i) ∧
      (∀ p ∈ cycles, ∃ next, Window timeline p.timeout next ∧ p.Follows timeline next) ∧
      (cycles.flatMap CycleEvents.all).Nodup := by
  obtain ⟨cycles, hloop, htimeouts, hcycles⟩ := cycleLoop_eq hts (Nat.zero_le timeline.length)
  rw [Nat.sub_zero, ← List.range_eq_range'] at htimeouts
  refine ⟨cycles, fun fuel hfuel => ?_, htimeouts, hcycles, ?_⟩
  · rw [writeFaultTimeline]
    split
    · rename_i hnone
      rw [hnone] at htimeouts
      rw [List.map_eq_nil_iff.mp htimeouts]
      rfl
    · rw [hloop fuel 0 hfuel]
      simp only [Nat.zero_add]
  · have hsorted : (cycles.map CycleEvents.timeout).Pairwise (· < ·) := by
      rw [htimeouts]
      exact List.pairwise_lt_range.filter _
    have hkinds : ∀ p ∈ cycles, KindAt timeline tlTimeout p.timeout := by
      intro p hp
      have hmem : p.timeout ∈ cycles.map CycleEvents.timeout := List.mem_map_of_mem hp
      rw [htimeouts] at hmem
      simpa using (List.mem_filter.mp hmem).2
    refine (List.pairwise_flatMap.mpr ⟨fun p hp => ?_, ?_⟩ :
      (cycles.flatMap CycleEvents.all).Pairwise (· < ·)).imp Nat.ne_of_lt
    · obtain ⟨next, hwindow, hfollows⟩ := hcycles p hp
      exact (hfollows.bounds hwindow.lt).1
    · refine (List.pairwise_map.mp hsorted).imp_of_mem fun {p q} hp hq hlt x hx y hy => ?_
      obtain ⟨next, hwindow, hfollows⟩ := hcycles p hp
      obtain ⟨next', hwindow', hfollows'⟩ := hcycles q hq
      -- the next timeout is at or behind the end of the window
      have hnext : next ≤ q.timeout := by
        by_contra hinside
        exact hwindow.none q.timeout hlt (Nat.not_le.mp hinside) (hkinds q hq)
      have hx := ((hfollows.bounds hwindow.lt).2 x hx).2
      have hy := ((hfollows'.bounds hwindow'.lt).2 y hy).1
      omega

/-- A recovered timeout and one that is not, with a stray recovery before them. -/
def mixedTimeline : List RecordedEvent :=
  [⟨5, tlRecovery, 0⟩, ⟨10, tlTimeout, 1⟩, ⟨12, tlRecovery, 1⟩, ⟨15, tlHeartbeatRestored, 7⟩,
    ⟨20, tlTimeout, 2⟩, ⟨21, tlHeartbeatRestored, 8⟩]

theorem writeFaultTimeline_mixed :
    ∃ cycles : List CycleEvents,
      writeFaultTimeline mixedTimeline 7 =
          some (cycles.mapIdx fun k p => p.row mixedTimeline (k + 1)) ∧
        cycles.map CycleEvents.timeout = [1, 4] := by
  obtain ⟨cycles, hrows, htimeouts, -⟩ := @writeFaultTimeline_cycles mixedTimeline (by decide)
  exact ⟨cycles, hrows 7 (by decide), htimeouts.trans (by decide)⟩

end SafetyCopro
