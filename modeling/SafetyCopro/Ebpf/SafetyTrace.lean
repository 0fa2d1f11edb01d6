import SafetyCopro.Lib.Machine
import SafetyCopro.Driver.Device

/-!
The eBPF handlers on the tracepoints of the driver, `ebpf/safety_trace.bpf.c`.
The handlers see what the driver traces and nothing else, so who put a frame
into which queue is not known to them.
-/

namespace SafetyCopro

/-! ### The maps -/

/-- `log2_u64`. -/
def log2U64 (v : U64) : Nat :=
  let (v, r) := if v ≥ 0x100000000 then (v >>> 32, 32) else (v, 0)
  let (v, r) := if v ≥ 0x10000 then (v >>> 16, r + 16) else (v, r)
  let (v, r) := if v ≥ 0x100 then (v >>> 8, r + 8) else (v, r)
  let (v, r) := if v ≥ 0x10 then (v >>> 4, r + 4) else (v, r)
  let (v, r) := if v ≥ 0x4 then (v >>> 2, r + 2) else (v, r)
  if v ≥ 0x2 then r + 1 else r

def maxSlots : Nat := 64

/-- `struct hist`. -/
structure Hist where
  slots : List U64 := List.replicate maxSlots 0
  count : U64 := 0
  sum : U64 := 0
  min : U64 := 0
  max : U64 := 0
deriving DecidableEq, Repr

def histRecord (h : Hist) (delta : U64) : Hist :=
  let slot := if log2U64 delta ≥ maxSlots then maxSlots - 1 else log2U64 delta
  let count := h.count + 1
  { slots := h.slots.modify slot (· + 1)
    count
    sum := h.sum + delta
    min := if count = 1 ∨ delta < h.min then delta else h.min
    max := if delta > h.max then delta else h.max }

inductive TpCounterIdx
  | frameReceived | frameDropped | timeoutDetected | recoveryQueued | pollWakeup
deriving DecidableEq, Repr

inductive TimelineKind
  | timeout | recovery | heartbeatRestored
deriving DecidableEq, Repr

/-- Whether a restored heartbeat is owed behind an event of this kind. -/
def TimelineKind.owes (owed : Bool) : TimelineKind → Bool
  | .timeout => owed
  | .recovery => true
  | .heartbeatRestored => false

/-- `struct timeline_event`. -/
structure TimelineEvent where
  ts : U64
  kind : TimelineKind
  aux : U32
deriving DecidableEq, Repr

/-- What a handler reads of the machine it runs on: the CPU, the clock, and
whether the ring buffer has room for an event. -/
structure Probe where
  cpu : Nat := 0
  nowNs : U64 := 0
  reserved : Bool := true
deriving DecidableEq, Repr

/-- The maps the tracepoint handlers share; the counters and the histogram are
kept for each CPU. -/
structure SafetyTrace where
  tpCounters : Nat → TpCounterIdx → U64 := fun _ _ => 0
  pollLat : Nat → Hist := fun _ => {}
  lastFrameTs : U64 := 0
  recoveryPending : U32 := 0

namespace SafetyTrace

/-! ### The handlers -/

def counterInc (b : SafetyTrace) (cpu : Nat) (idx : TpCounterIdx) : SafetyTrace :=
  { b with
    tpCounters := Function.update b.tpCounters cpu
      (Function.update (b.tpCounters cpu) idx (b.tpCounters cpu idx + 1)) }

/-- `bpf_ringbuf_reserve` and `bpf_ringbuf_submit`. -/
def emit (p : Probe) (kind : TimelineKind) (aux : U32) : List TimelineEvent :=
  if p.reserved then [⟨p.nowNs, kind, aux⟩] else []

def handleFrameReceived (b : SafetyTrace) (p : Probe) (seq : U16) :
    SafetyTrace × List TimelineEvent :=
  let b := { b.counterInc p.cpu .frameReceived with lastFrameTs := p.nowNs }
  if b.recoveryPending ≠ 0 then
    ({ b with recoveryPending := 0 }, emit p .heartbeatRestored (seq.setWidth 32))
  else (b, [])

def handleFrameDropped (b : SafetyTrace) (p : Probe) : SafetyTrace × List TimelineEvent :=
  (b.counterInc p.cpu .frameDropped, [])

def handlePollWakeup (b : SafetyTrace) (p : Probe) : SafetyTrace × List TimelineEvent :=
  let b := b.counterInc p.cpu .pollWakeup
  if b.lastFrameTs = 0 then (b, [])
  else
    ({ b with
        pollLat := Function.update b.pollLat p.cpu
          (histRecord (b.pollLat p.cpu) (p.nowNs - b.lastFrameTs)) }, [])

def handleTimeoutDetected (b : SafetyTrace) (p : Probe) (count : U32) :
    SafetyTrace × List TimelineEvent :=
  (b.counterInc p.cpu .timeoutDetected, emit p .timeout count)

def handleRecoveryQueued (b : SafetyTrace) (p : Probe) (count : U32) :
    SafetyTrace × List TimelineEvent :=
  ({ b.counterInc p.cpu .recoveryQueued with recoveryPending := 1 }, emit p .recovery count)

def handle (b : SafetyTrace) (input : TraceEvent × Probe) : SafetyTrace × List TimelineEvent :=
  match input.1 with
  | .frameReceived seq _ _ => b.handleFrameReceived input.2 seq
  | .frameDropped _ _ => b.handleFrameDropped input.2
  | .timeoutDetected _ count => b.handleTimeoutDetected input.2 count
  | .recoveryQueued count => b.handleRecoveryQueued input.2 count
  | .pollWakeup _ => b.handlePollWakeup input.2

/-- A traced frame clears the flag, and is taken for the restored heartbeat if
the flag was set. -/
theorem handleFrameReceived_eq (b : SafetyTrace) (p : Probe) (seq : U16) :
    (b.handleFrameReceived p seq).1.recoveryPending = 0 ∧
      (b.handleFrameReceived p seq).2 =
        if b.recoveryPending ≠ 0 then emit p .heartbeatRestored (seq.setWidth 32) else [] := by
  by_cases hset : b.recoveryPending = 0
  · have hnot : ¬ (b.counterInc p.cpu .frameReceived).recoveryPending ≠ 0 := fun h => h hset
    simp only [handleFrameReceived, if_neg hnot, if_neg (not_not.mpr hset)]
    exact ⟨hset, trivial⟩
  · have hat : (b.counterInc p.cpu .frameReceived).recoveryPending ≠ 0 := hset
    simp only [handleFrameReceived, if_pos hat, if_pos hset, and_self]

theorem handlePollWakeup_eq (b : SafetyTrace) (p : Probe) :
    (b.handlePollWakeup p).1.recoveryPending = b.recoveryPending ∧
      (b.handlePollWakeup p).2 = [] := by
  rw [handlePollWakeup]
  split <;> exact ⟨rfl, rfl⟩

/-! ### The timeline -/

/-- Whether a recovery stands in the timeline that no restored heartbeat has
answered. -/
def owes (timeline : List TimelineEvent) : Bool :=
  timeline.foldl (fun owed ev => ev.kind.owes owed) false

theorem owes_snoc (timeline : List TimelineEvent) (ev : TimelineEvent) :
    owes (timeline ++ [ev]) = ev.kind.owes (owes timeline) := List.foldl_append ..

/-- Every restored heartbeat answers a recovery, each of them one. -/
def Paired (timeline : List TimelineEvent) : Prop :=
  ∀ before ev, before ++ [ev] <+: timeline → ev.kind = .heartbeatRestored → owes before = true

theorem Paired.snoc {timeline : List TimelineEvent} (h : Paired timeline) {ev : TimelineEvent}
    (hev : ev.kind = .heartbeatRestored → owes timeline = true) : Paired (timeline ++ [ev]) := by
  intro before ev' hbefore hkind
  obtain heq | hbefore := List.prefix_concat_iff.mp hbefore
  · obtain ⟨rfl, hlast⟩ := List.append_inj' heq rfl
    obtain rfl := List.singleton_inj.mp hlast
    exact hev hkind
  · exact h before ev' hbefore hkind

/-- The flag of the handlers says what the timeline says. -/
structure Recorded (timeline : List TimelineEvent) (b : SafetyTrace) : Prop where
  pending : b.recoveryPending ≠ 0 ↔ owes timeline = true
  paired : Paired timeline

theorem recorded_init : Recorded [] {} where
  pending := iff_of_false (fun h => h rfl) Bool.false_ne_true
  paired before ev h := absurd (List.prefix_nil.mp h) (by simp)

variable {timeline : List TimelineEvent} {b : SafetyTrace}

theorem Recorded.handle (h : Recorded timeline b) {input : TraceEvent × Probe}
    (hroom : input.2.reserved = true) :
    Recorded (timeline ++ (b.handle input).2) (b.handle input).1 := by
  obtain ⟨hpending, hpaired⟩ := h
  obtain ⟨e, p⟩ := input
  have hemit : ∀ kind aux, emit p kind aux = [⟨p.nowNs, kind, aux⟩] := fun _ _ => if_pos hroom
  cases e with
  | frameReceived seq type qlen =>
      obtain ⟨hclear, hout⟩ := b.handleFrameReceived_eq p seq
      rw [SafetyTrace.handle, hout, hemit]
      by_cases hset : b.recoveryPending = 0
      · rw [if_neg (not_not.mpr hset), List.append_nil]
        rw [hset] at hpending
        exact ⟨by rwa [hclear], hpaired⟩
      · rw [if_pos hset]
        refine ⟨?_, hpaired.snoc fun _ => hpending.mp hset⟩
        rw [owes_snoc]
        exact iff_of_false (fun h => h hclear) Bool.false_ne_true
  | frameDropped seq type =>
      have hout : (b.handle (.frameDropped seq type, p)).2 = [] := rfl
      rw [hout, List.append_nil]
      exact ⟨hpending, hpaired⟩
  | timeoutDetected timeoutMs count =>
      have hout : (b.handle (.timeoutDetected timeoutMs count, p)).2 =
          [⟨p.nowNs, .timeout, count⟩] := hemit _ _
      rw [hout]
      exact ⟨by rwa [owes_snoc], hpaired.snoc nofun⟩
  | recoveryQueued count =>
      have hout : (b.handle (.recoveryQueued count, p)).2 = [⟨p.nowNs, .recovery, count⟩] :=
        hemit _ _
      rw [hout]
      refine ⟨?_, hpaired.snoc nofun⟩
      rw [owes_snoc]
      exact iff_of_true (by decide : (1 : U32) ≠ 0) rfl
  | pollWakeup events =>
      obtain ⟨hkept, hout⟩ := b.handlePollWakeup_eq p
      rw [SafetyTrace.handle, hout, List.append_nil]
      exact ⟨by rwa [hkept], hpaired⟩

theorem mem_emit {p : Probe} {kind : TimelineKind} {aux : U32} {ev : TimelineEvent}
    (h : ev ∈ emit p kind aux) : ev = ⟨p.nowNs, kind, aux⟩ := by
  rw [emit] at h
  split at h
  · exact List.mem_singleton.mp h
  · cases h

/-- A restored heartbeat is a traced frame, taken for it while the flag is set. -/
theorem restored_mem_handle {e : TraceEvent} {p : Probe} {ev : TimelineEvent}
    (hmem : ev ∈ (b.handle (e, p)).2) (hkind : ev.kind = .heartbeatRestored) :
    (∃ seq type qlen, e = .frameReceived seq type qlen ∧ ev.aux = seq.setWidth 32) ∧
      b.recoveryPending ≠ 0 := by
  cases e with
  | frameReceived seq type qlen =>
      rw [handle, (b.handleFrameReceived_eq p seq).2] at hmem
      split at hmem
      · rename_i hset
        obtain rfl := mem_emit hmem
        exact ⟨⟨seq, type, qlen, rfl, rfl⟩, hset⟩
      · cases hmem
  | frameDropped seq type => cases hmem
  | timeoutDetected timeoutMs count =>
      obtain rfl := mem_emit hmem
      cases hkind
  | recoveryQueued count =>
      obtain rfl := mem_emit hmem
      cases hkind
  | pollWakeup events =>
      rw [handle, (b.handlePollWakeup_eq p).2] at hmem
      cases hmem

theorem pending_of_handle {e : TraceEvent} {p : Probe}
    (h : (b.handle (e, p)).1.recoveryPending ≠ 0) :
    b.recoveryPending ≠ 0 ∨ ∃ count, e = .recoveryQueued count := by
  cases e with
  | frameReceived seq type qlen => exact absurd (b.handleFrameReceived_eq p seq).1 h
  | frameDropped seq type => exact Or.inl h
  | timeoutDetected timeoutMs count => exact Or.inl h
  | recoveryQueued count => exact Or.inr ⟨count, rfl⟩
  | pollWakeup events =>
      rw [handle, (b.handlePollWakeup_eq p).1] at h
      exact Or.inl h

/-- A restored heartbeat is a frame that was traced, with a recovery before it. -/
theorem restored_source {probes : TraceEvent → Probe} {trace : List TraceEvent}
    {ev : TimelineEvent}
    (hmem : ev ∈ Machine.outputs handle b (trace.map fun e => (e, probes e)))
    (hkind : ev.kind = .heartbeatRestored) :
    (∃ seq type qlen, .frameReceived seq type qlen ∈ trace ∧ ev.aux = seq.setWidth 32) ∧
      (b.recoveryPending ≠ 0 ∨ ∃ count, .recoveryQueued count ∈ trace) := by
  induction trace generalizing b with
  | nil => cases hmem
  | cons e trace ih =>
      obtain hmem | hmem := List.mem_append.mp hmem
      · obtain ⟨⟨seq, type, qlen, rfl, haux⟩, hset⟩ := restored_mem_handle hmem hkind
        exact ⟨⟨seq, type, qlen, List.mem_cons_self, haux⟩, Or.inl hset⟩
      · obtain ⟨⟨seq, type, qlen, hreceived, haux⟩, hpending⟩ := ih hmem
        refine ⟨⟨seq, type, qlen, List.mem_cons_of_mem _ hreceived, haux⟩, ?_⟩
        obtain hpending | ⟨count, hqueued⟩ := hpending
        · refine (pending_of_handle hpending).imp_right fun hqueued => ?_
          obtain ⟨count, rfl⟩ := hqueued
          exact ⟨count, List.mem_cons_self⟩
        · exact Or.inr ⟨count, List.mem_cons_of_mem _ hqueued⟩

/-- Over a trace that ends with a frame. -/
theorem restored_of_received {p : Probe} (hroom : p.reserved = true)
    (hset : b.recoveryPending ≠ 0) (seq : U16) (type : U8) (qlen : U32) :
    ⟨p.nowNs, .heartbeatRestored, seq.setWidth 32⟩ ∈
      (b.handle (.frameReceived seq type qlen, p)).2 := by
  rw [handle, (b.handleFrameReceived_eq p seq).2, if_pos hset, emit, if_pos hroom]
  exact List.mem_singleton.mpr rfl

end SafetyTrace

end SafetyCopro
