import SafetyCopro.Ebpf.Histogram
import SafetyCopro.Lib.Stopwatch
import SafetyCopro.Lib.Text

/-!
The handlers on the system call and scheduler tracepoints,
`ebpf/safety_trace.bpf.c`, and the rows the tracing tool reports of them. Threads
run on several CPUs and their events come in any order; a hash map keyed by the
thread has the time of the last event that started a measurement.
-/

namespace SafetyCopro

/-! ### The handlers -/

inductive SyscallKind
  | read | write | ioctl
deriving DecidableEq, Repr

/-- `task->comm`. -/
abbrev Comm := Vector U8 16

def commPrefix : Text := Text.lit "safety-supervi"

def commPrefixLen : Nat := 14

def commMatches (comm : Comm) : Bool :=
  (List.range commPrefixLen).all fun i => comm.toList[i]? == commPrefix[i]?

/-- `comm_is_supervisor`; none is a name that `bpf_get_current_comm` cannot copy. -/
def commIsSupervisor : Option Comm → Bool
  | none => false
  | some comm => commMatches comm

/-- The tracepoints, with what the handlers read of them and of the current task. -/
inductive KernelEvent
  | sysEnter (kind : SyscallKind) (pidTgid : U64) (comm : Option Comm)
  | sysExit (kind : SyscallKind) (pidTgid : U64)
  | schedWakeup (pid : U32)
  | schedWakeupNew (pid : U32)
  | schedSwitch (nextPid : U32) (nextComm : Comm)
deriving DecidableEq

/-- `max_entries` of `sys_start` and `wakeup_ts`. -/
def startMapEntries : Nat := 10240

/-- `collect_metric`: the row of a metric over `ncpu` CPUs. -/
def collectMetric (ncpu : Nat) (per : Nat → Hist) : Hist :=
  sumPercpuHist (some ((List.range ncpu).map per))

structure LatencyTrace where
  sysStart : BoundedMap U32 U64 startMapEntries := .empty
  wakeupTs : BoundedMap U32 U64 startMapEntries := .empty
  syscallLat : SyscallKind → Nat → Hist := fun _ _ => {}
  schedLat : Nat → Hist := fun _ => {}

namespace LatencyTrace

/-- The low half of `bpf_get_current_pid_tgid`. -/
def tidOf (pidTgid : U64) : U32 := pidTgid.setWidth 32

def sysEnterRecord (b : LatencyTrace) (p : Probe) (pidTgid : U64) (comm : Option Comm) :
    LatencyTrace :=
  if commIsSupervisor comm then
    { b with sysStart := b.sysStart.update (tidOf pidTgid) p.nowNs }
  else b

def sysExitRecord (b : LatencyTrace) (p : Probe) (kind : SyscallKind) (pidTgid : U64) :
    LatencyTrace :=
  match b.sysStart.lookup (tidOf pidTgid) with
  | none => b
  | some ts =>
      { b with
        sysStart := b.sysStart.delete (tidOf pidTgid)
        syscallLat := Function.update b.syscallLat kind
          (Function.update (b.syscallLat kind) p.cpu
            (histRecord (b.syscallLat kind p.cpu) (p.nowNs - ts))) }

/-- `handle_sched_wakeup` and `handle_sched_wakeup_new`. -/
def handleSchedWakeup (b : LatencyTrace) (p : Probe) (pid : U32) : LatencyTrace :=
  { b with wakeupTs := b.wakeupTs.update pid p.nowNs }

def handleSchedSwitch (b : LatencyTrace) (p : Probe) (nextPid : U32) (nextComm : Comm) :
    LatencyTrace :=
  match b.wakeupTs.lookup nextPid with
  | none => b
  | some ts =>
      let b := if commMatches nextComm then
          { b with
            schedLat := Function.update b.schedLat p.cpu
              (histRecord (b.schedLat p.cpu) (p.nowNs - ts)) }
        else b
      { b with wakeupTs := b.wakeupTs.delete nextPid }

def handle (b : LatencyTrace) (input : KernelEvent × Probe) : LatencyTrace :=
  match input.1 with
  | .sysEnter _ pidTgid comm => b.sysEnterRecord input.2 pidTgid comm
  | .sysExit kind pidTgid => b.sysExitRecord input.2 kind pidTgid
  | .schedWakeup pid => b.handleSchedWakeup input.2 pid
  | .schedWakeupNew pid => b.handleSchedWakeup input.2 pid
  | .schedSwitch nextPid nextComm => b.handleSchedSwitch input.2 nextPid nextComm

def run (events : List (KernelEvent × Probe)) : LatencyTrace := events.foldl handle {}

/-! ### What is measured -/

open Stopwatch

/-- A list taken apart by a number of each element. -/
theorem filter_range_perm {α : Type} (f : α → Nat) (l : List α) (n : Nat) :
    ((List.range n).map fun c => l.filter fun a => f a == c).flatten.Perm
      (l.filter fun a => decide (f a < n)) := by
  induction n with
  | zero => simp
  | succ n ih =>
      have hsplit := List.filter_append_perm (fun a => decide (f a < n))
        (l.filter fun a => decide (f a < n + 1))
      rw [List.filter_filter, List.filter_filter] at hsplit
      have hlow : l.filter (fun a => decide (f a < n)) =
          l.filter fun a => decide (f a < n) && decide (f a < n + 1) :=
        List.filter_congr fun a _ => by grind
      have hhigh : l.filter (fun a => f a == n) =
          l.filter fun a => !decide (f a < n) && decide (f a < n + 1) :=
        List.filter_congr fun a _ => by grind
      rw [List.range_succ, List.map_append, List.flatten_append, List.map_singleton,
        List.flatten_singleton, hhigh]
      rw [hlow] at ih
      exact (ih.append_right _).trans hsplit

/-- A measured call starts where a thread of the supervisor enters the kernel, and
ends where that thread leaves it. -/
def sysRole : KernelEvent × Probe → Role U32
  | (.sysEnter _ pidTgid comm, _) =>
      if commIsSupervisor comm then .start (tidOf pidTgid) else .none
  | (.sysExit _ pidTgid, _) => .stop (tidOf pidTgid)
  | _ => .none

/-- A measured delay starts where a task is woken and ends where it is switched to. -/
def schedRole : KernelEvent × Probe → Role U32
  | (.schedWakeup pid, _) => .start pid
  | (.schedWakeupNew pid, _) => .start pid
  | (.schedSwitch nextPid _, _) => .stop nextPid
  | _ => .none

def exitOf (kind : SyscallKind) : KernelEvent × Probe → Bool
  | (.sysExit kind' _, _) => kind' = kind
  | _ => false

def switchesToSupervisor : KernelEvent × Probe → Bool
  | (.schedSwitch _ nextComm, _) => commMatches nextComm
  | _ => false

def timeOfEvent (e : KernelEvent × Probe) : U64 := e.2.nowNs

def elapsed (lap : (KernelEvent × Probe) × (KernelEvent × Probe)) : U64 :=
  timeOfEvent lap.2 - timeOfEvent lap.1

section Measured
variable (role : KernelEvent × Probe → Role U32) (takes : KernelEvent × Probe → Bool)

def samples (events : List (KernelEvent × Probe)) : List U64 :=
  ((lapEvents role events).filter fun lap => takes lap.2).map elapsed

def samplesOn (events : List (KernelEvent × Probe)) (cpu : Nat) : List U64 :=
  ((lapEvents role events).filter fun lap => takes lap.2 && lap.2.2.cpu == cpu).map elapsed

/-- The histograms of the CPUs behind an event. -/
def record (starts : BoundedMap U32 U64 startMapEntries) (per : Nat → Hist)
    (e : KernelEvent × Probe) : Nat → Hist :=
  match role e with
  | .stop k =>
      match starts.lookup k with
      | some ts =>
          if takes e then
            Function.update per e.2.cpu (histRecord (per e.2.cpu) (e.2.nowNs - ts))
          else per
      | none => per
  | _ => per

/-- The map has the starts of what is being measured, and each CPU has the
histogram of what was measured on it. -/
structure Measures (events : List (KernelEvent × Probe))
    (starts : BoundedMap U32 U64 startMapEntries) (per : Nat → Hist) : Prop where
  starts : Holds role timeOfEvent events starts
  per : ∀ cpu, per cpu = histOf (samplesOn role takes events cpu)

variable {role takes}

theorem histOf_snoc (before : List U64) (v : U64) :
    histOf (before ++ [v]) = histRecord (histOf before) v := by
  rw [histOf, List.foldl_append, histOf, List.foldl_cons, List.foldl_nil]

theorem samplesOn_snoc (events : List (KernelEvent × Probe)) (e : KernelEvent × Probe)
    (cpu : Nat) :
    samplesOn role takes (events ++ [e]) cpu = samplesOn role takes events cpu ++
      match role e with
      | .stop k =>
          if takes e && e.2.cpu == cpu then
            (((opened role k events).bind fun i => events[i]?.map timeOfEvent).map
              (e.2.nowNs - ·)).toList
          else []
      | _ => [] := by
  rw [samplesOn, lapEvents_snoc, List.filter_append, List.map_append, samplesOn]
  congr 1
  cases hrole : role e with
  | stop k =>
      dsimp only
      cases hopened : opened role k events with
      | none => simp
      | some i =>
          have hlt := lt_of_running (opened_eq_some_iff.mp hopened)
          simp only [Option.bind_some, List.getElem?_eq_getElem hlt, Option.map_some,
            Option.toList_some, List.filter_cons, List.filter_nil]
          split <;> rfl
  | _ => rfl

theorem Measures.snoc {events : List (KernelEvent × Probe)}
    {starts : BoundedMap U32 U64 startMapEntries} {per : Nat → Hist}
    (h : Measures role takes events starts per) {e : KernelEvent × Probe}
    (hcap : (live role (events ++ [e])).length ≤ startMapEntries) :
    Measures role takes (events ++ [e]) (advance role timeOfEvent starts e)
      (record role takes starts per e) := by
  refine ⟨h.starts.snoc hcap, fun cpu => ?_⟩
  rw [samplesOn_snoc, record]
  cases hrole : role e with
  | stop k =>
      dsimp only
      rw [← h.starts k]
      cases starts.lookup k with
      | none => simpa using h.per cpu
      | some ts =>
          dsimp only
          by_cases htakes : takes e = true
          · by_cases hcpu : e.2.cpu = cpu
            · rw [if_pos htakes, hcpu, Function.update_self, h.per, htakes, beq_self_eq_true]
              exact (histOf_snoc _ _).symm
            · have hne : (e.2.cpu == cpu) = false := beq_false_of_ne hcpu
              rw [if_pos htakes, Function.update_of_ne (Ne.symm hcpu), h.per, hne, Bool.and_false,
                if_neg Bool.false_ne_true, List.append_nil]
          · rw [if_neg htakes, h.per]
            rw [Bool.not_eq_true] at htakes
            rw [htakes, Bool.false_and, if_neg Bool.false_ne_true, List.append_nil]
  | _ =>
      dsimp only
      rw [List.append_nil]
      exact h.per cpu

/-- The CPUs together have measured what was measured. -/
theorem perm_samplesOn {events : List (KernelEvent × Probe)} {ncpu : Nat}
    (hcpus : ∀ e ∈ events, e.2.cpu < ncpu) :
    ((List.range ncpu).map (samplesOn role takes events)).flatten.Perm
      (samples role takes events) := by
  have hon : ∀ cpu, samplesOn role takes events cpu =
      (((lapEvents role events).filter fun lap => takes lap.2).filter
        fun lap => lap.2.2.cpu == cpu).map elapsed := by
    intro cpu
    rw [samplesOn, List.filter_filter]
    exact congrArg (List.map elapsed) (List.filter_congr fun lap _ => Bool.and_comm ..)
  have hall : ((lapEvents role events).filter fun lap => takes lap.2).filter
      (fun lap => decide (lap.2.2.cpu < ncpu)) =
        (lapEvents role events).filter fun lap => takes lap.2 := by
    refine List.filter_eq_self.mpr fun lap hlap => decide_eq_true ?_
    exact hcpus _ (mem_of_mem_lapEvents (List.mem_of_mem_filter hlap)).2
  have hperm := filter_range_perm (fun lap : (KernelEvent × Probe) × (KernelEvent × Probe) =>
    lap.2.2.cpu) ((lapEvents role events).filter fun lap => takes lap.2) ncpu
  rw [hall] at hperm
  rw [List.map_congr_left fun cpu _ => hon cpu, samples]
  have hflat := hperm.map elapsed
  rwa [List.map_flatten, List.map_map] at hflat

theorem length_samples_le (events : List (KernelEvent × Probe)) :
    (samples role takes events).length ≤ events.length := by
  rw [samples, List.length_map]
  exact Nat.le_trans (List.length_filter_le _ _) (length_lapEvents_le events)

/-- The row of a metric is the histogram of what was measured. -/
theorem Measures.collectMetric_eq {events : List (KernelEvent × Probe)}
    {starts : BoundedMap U32 U64 startMapEntries} {per : Nat → Hist}
    (h : Measures role takes events starts per) {ncpu : Nat}
    (hcpus : ∀ e ∈ events, e.2.cpu < ncpu) (hlen : events.length < 2 ^ 64) :
    collectMetric ncpu per = histOf (samples role takes events) := by
  have hperm := @perm_samplesOn role takes events ncpu hcpus
  have hshort := Nat.lt_of_le_of_lt (@length_samples_le role takes events) hlen
  have hsum := @sumPercpuHist_summarizes ((List.range ncpu).map (samplesOn role takes events))
    (by rwa [hperm.length_eq])
  rw [collectMetric, List.map_congr_left fun cpu _ => h.per cpu]
  rw [List.map_map] at hsum
  exact (hsum.perm hperm).unique (histOf_summarizes hshort)

end Measured

/-! ### What the handlers do -/

section Handlers
variable (b : LatencyTrace) (e : KernelEvent × Probe)

theorem handle_sysStart : (b.handle e).sysStart = advance sysRole timeOfEvent b.sysStart e := by
  obtain ⟨event, p⟩ := e
  cases event with
  | sysEnter kind pidTgid comm =>
      simp only [handle, sysEnterRecord, advance, sysRole]
      split <;> rfl
  | sysExit kind pidTgid =>
      simp only [handle, sysExitRecord, advance, sysRole]
      split
      · rename_i hnone
        exact (BoundedMap.delete_of_lookup_none hnone).symm
      · rfl
  | schedWakeup pid => rfl
  | schedWakeupNew pid => rfl
  | schedSwitch nextPid nextComm =>
      simp only [handle, handleSchedSwitch, advance, sysRole]
      split
      · rfl
      split <;> rfl

theorem handle_syscallLat (kind : SyscallKind) :
    (b.handle e).syscallLat kind =
      record sysRole (exitOf kind) b.sysStart (b.syscallLat kind) e := by
  obtain ⟨event, p⟩ := e
  cases event with
  | sysEnter kind' pidTgid comm =>
      simp only [handle, sysEnterRecord, record, sysRole]
      split <;> rfl
  | sysExit kind' pidTgid =>
      simp only [handle, sysExitRecord, record, sysRole, exitOf]
      split
      · rename_i hnone
        rw [hnone]
      · rename_i ts hsome
        rw [hsome]
        dsimp only
        by_cases hkind : kind' = kind
        · rw [hkind, Function.update_self]
          simp
        · rw [Function.update_of_ne (Ne.symm hkind)]
          simp [hkind]
  | schedWakeup pid => rfl
  | schedWakeupNew pid => rfl
  | schedSwitch nextPid nextComm =>
      simp only [handle, handleSchedSwitch, record, sysRole]
      split
      · rfl
      split <;> rfl

theorem handle_wakeupTs : (b.handle e).wakeupTs = advance schedRole timeOfEvent b.wakeupTs e := by
  obtain ⟨event, p⟩ := e
  cases event with
  | sysEnter kind pidTgid comm =>
      simp only [handle, sysEnterRecord, advance, schedRole]
      split <;> rfl
  | sysExit kind pidTgid =>
      simp only [handle, sysExitRecord, advance, schedRole]
      split <;> rfl
  | schedWakeup pid => rfl
  | schedWakeupNew pid => rfl
  | schedSwitch nextPid nextComm =>
      simp only [handle, handleSchedSwitch, advance, schedRole]
      split
      · rename_i hnone
        exact (BoundedMap.delete_of_lookup_none hnone).symm
      split <;> rfl

theorem handle_schedLat :
    (b.handle e).schedLat = record schedRole switchesToSupervisor b.wakeupTs b.schedLat e := by
  obtain ⟨event, p⟩ := e
  cases event with
  | sysEnter kind pidTgid comm =>
      simp only [handle, sysEnterRecord, record, schedRole]
      split <;> rfl
  | sysExit kind pidTgid =>
      simp only [handle, sysExitRecord, record, schedRole]
      split <;> rfl
  | schedWakeup pid => rfl
  | schedWakeupNew pid => rfl
  | schedSwitch nextPid nextComm =>
      simp only [handle, handleSchedSwitch, record, schedRole, switchesToSupervisor]
      split
      · rename_i hnone
        rw [hnone]
      · rename_i ts hsome
        rw [hsome]
        by_cases hcomm : commMatches nextComm = true
        · simp only [hcomm, if_true]
        · simp only [hcomm, Bool.false_eq_true, if_false]

/-- Behind every run of events that never has more calls under way than fit into the
map. -/
theorem measures_syscalls {events : List (KernelEvent × Probe)}
    (hfits : FitsIn sysRole startMapEntries events)
    (kind : SyscallKind) :
    Measures sysRole (exitOf kind) events (run events).sysStart ((run events).syscallLat kind) := by
  induction events using List.reverseRecOn with
  | nil => exact ⟨holds_nil, fun _ => rfl⟩
  | append_singleton events e ih =>
      have h := (ih hfits.of_snoc.1).snoc hfits.of_snoc.2
      rwa [run, List.foldl_append, List.foldl_cons, List.foldl_nil, handle_sysStart,
        handle_syscallLat]

theorem measures_switches {events : List (KernelEvent × Probe)}
    (hfits : FitsIn schedRole startMapEntries events) :
    Measures schedRole switchesToSupervisor events (run events).wakeupTs (run events).schedLat := by
  induction events using List.reverseRecOn with
  | nil => exact ⟨holds_nil, fun _ => rfl⟩
  | append_singleton events e ih =>
      have h := (ih hfits.of_snoc.1).snoc hfits.of_snoc.2
      rwa [run, List.foldl_append, List.foldl_cons, List.foldl_nil, handle_wakeupTs,
        handle_schedLat]

end Handlers

/-! ### The report -/

/-- What the stops of these pairs measure that are taken into the metric. -/
def durations (events : List (KernelEvent × Probe)) (takes : KernelEvent × Probe → Bool)
    (pairs : List (Nat × Nat)) : List U64 :=
  pairs.filterMap fun pair => do
    let start ← events[pair.1]?
    let stop ← events[pair.2]?
    if takes stop then some (stop.2.nowNs - start.2.nowNs) else none

theorem samples_eq_durations (role : KernelEvent × Probe → Role U32)
    (takes : KernelEvent × Probe → Bool) (events : List (KernelEvent × Probe)) :
    samples role takes events = durations events takes (laps role events) := by
  rw [samples, lapEvents, durations, List.filter_filterMap, List.map_filterMap]
  refine List.filterMap_congr fun pair _ => ?_
  cases events[pair.1]? with
  | none => rfl
  | some start =>
      cases events[pair.2]? with
      | none => rfl
      | some stop =>
          by_cases htakes : takes stop = true
          · simp only [Option.bind_eq_bind, Option.bind_some, Option.filter_some, htakes, if_true,
              Option.map_some]
            rfl
          · simp only [Option.bind_eq_bind, Option.bind_some, Option.filter_some, htakes,
              Bool.false_eq_true, if_false, Option.map_none]

theorem Measures.lookup_iff {role : KernelEvent × Probe → Role U32}
    {takes : KernelEvent × Probe → Bool} {events : List (KernelEvent × Probe)}
    {starts : BoundedMap U32 U64 startMapEntries} {per : Nat → Hist}
    (h : Measures role takes events starts per) (k : U32) (ts : U64) :
    starts.lookup k = some ts ↔
      ∃ i, Running role events k i ∧ events[i]?.map timeOfEvent = some ts := by
  rw [h.starts k, Option.bind_eq_some_iff]
  exact exists_congr fun i => and_congr_left fun _ => opened_eq_some_iff

variable {events : List (KernelEvent × Probe)} {ncpu : Nat}

/-- However the threads and CPUs are interleaved, as long as no more calls are under way
at once than the map holds: the row of a system call is the histogram of the times from
an entry of a thread of the supervisor to the next exit of that thread, each pair taken
once, and the map is left with the entries that no exit has followed yet. -/
theorem syscall_latency_exact (hcpus : ∀ e ∈ events, e.2.cpu < ncpu)
    (hfits : FitsIn sysRole startMapEntries events) (hlen : events.length < 2 ^ 64) :
    ∃ calls : List (Nat × Nat), calls.Nodup ∧
      (∀ i j, (i, j) ∈ calls ↔ Completes sysRole events i j) ∧
      (∀ kind, collectMetric ncpu ((run events).syscallLat kind) =
        histOf (durations events (exitOf kind) calls)) ∧
      ∀ tid ts, (run events).sysStart.lookup tid = some ts ↔
        ∃ i, Running sysRole events tid i ∧ events[i]?.map timeOfEvent = some ts := by
  refine ⟨laps sysRole events, nodup_laps events, fun i j => mem_laps, fun kind => ?_, ?_⟩
  · rw [(measures_syscalls hfits kind).collectMetric_eq hcpus hlen, samples_eq_durations]
  · exact (measures_syscalls hfits .read).lookup_iff

/-- Likewise for the time from the last wakeup of a task to the moment it is
switched to, of which those of the supervisor are counted. -/
theorem sched_delay_exact (hcpus : ∀ e ∈ events, e.2.cpu < ncpu)
    (hfits : FitsIn schedRole startMapEntries events) (hlen : events.length < 2 ^ 64) :
    ∃ delays : List (Nat × Nat), delays.Nodup ∧
      (∀ i j, (i, j) ∈ delays ↔ Completes schedRole events i j) ∧
      collectMetric ncpu (run events).schedLat =
        histOf (durations events switchesToSupervisor delays) ∧
      ∀ pid ts, (run events).wakeupTs.lookup pid = some ts ↔
        ∃ i, Running schedRole events pid i ∧ events[i]?.map timeOfEvent = some ts := by
  have h := measures_switches hfits
  refine ⟨laps schedRole events, nodup_laps events, fun i j => mem_laps, ?_, h.lookup_iff⟩
  rw [h.collectMetric_eq hcpus hlen, samples_eq_durations]

def supervisorComm : Comm := Vector.ofFn fun i => (commPrefix ++ Text.lit "s").getD i.val 0

/-- Two threads in the kernel at once, on two CPUs; the second leaves first. -/
def twoCalls : List (KernelEvent × Probe) :=
  [(.sysEnter .read 0x700000007 (some supervisorComm), { cpu := 0, nowNs := 100 }),
   (.sysEnter .write 0x700000008 (some supervisorComm), { cpu := 1, nowNs := 130 }),
   (.sysExit .write 0x700000008, { cpu := 1, nowNs := 150 }),
   (.sysExit .read 0x700000007, { cpu := 1, nowNs := 400 })]

theorem syscall_latency_exact_two :
    ∃ calls : List (Nat × Nat), calls.Nodup ∧
      (∀ i j, (i, j) ∈ calls ↔ Completes sysRole twoCalls i j) ∧
      (∀ kind, collectMetric 2 ((run twoCalls).syscallLat kind) =
        histOf (durations twoCalls (exitOf kind) calls)) ∧
      ∀ tid ts, (run twoCalls).sysStart.lookup tid = some ts ↔
        ∃ i, Running sysRole twoCalls tid i ∧ twoCalls[i]?.map timeOfEvent = some ts :=
  syscall_latency_exact (by decide) (by decide) (by decide)

/-- A task of the supervisor that is woken twice before it runs. -/
def wokenTwice : List (KernelEvent × Probe) :=
  [(.schedWakeup 7, { cpu := 0, nowNs := 100 }), (.schedWakeup 9, { cpu := 1, nowNs := 110 }),
   (.schedWakeup 7, { cpu := 1, nowNs := 120 }),
   (.schedSwitch 7 supervisorComm, { cpu := 0, nowNs := 300 })]

theorem sched_delay_exact_twice :
    ∃ delays : List (Nat × Nat), delays.Nodup ∧
      (∀ i j, (i, j) ∈ delays ↔ Completes schedRole wokenTwice i j) ∧
      collectMetric 2 (run wokenTwice).schedLat =
        histOf (durations wokenTwice switchesToSupervisor delays) ∧
      ∀ pid ts, (run wokenTwice).wakeupTs.lookup pid = some ts ↔
        ∃ i, Running schedRole wokenTwice pid i ∧ wokenTwice[i]?.map timeOfEvent = some ts :=
  sched_delay_exact (by decide) (by decide) (by decide)

end LatencyTrace

end SafetyCopro
