import SafetyCopro.Ebpf.FaultTimeline
import SafetyCopro.System.TraceCounters

/-!
The fault cycles that the tracing tool reports of a run of the driver, from the
tracepoints through the ring buffer and the tool's array to the table. There is a
row for every expiry of the watchdog, but the time it gives for a restored
heartbeat is a time of the driver alone.
-/

namespace SafetyCopro

/-! ### The recorded events -/

def TimelineKind.code : TimelineKind → U32
  | .timeout => tlTimeout
  | .recovery => tlRecovery
  | .heartbeatRestored => tlHeartbeatRestored

theorem TimelineKind.code_inj {kind kind' : TimelineKind} (h : kind.code = kind'.code) :
    kind = kind' := by
  cases kind <;> cases kind' <;> first | rfl | exact absurd h (by decide)

/-- What `memcpy` leaves of an event. -/
def RecordedEvent.ofEvent (ev : TimelineEvent) : RecordedEvent := ⟨ev.ts, ev.kind.code, ev.aux⟩

theorem kindAt_ofEvent {events : List TimelineEvent} {kind : TimelineKind} {i : Nat} :
    KindAt (events.map .ofEvent) kind.code i ↔ ∃ ev, events[i]? = some ev ∧ ev.kind = kind := by
  rw [KindAt, List.getElem?_map]
  constructor
  · rintro ⟨e, he, hkind⟩
    obtain ⟨ev, hev, rfl⟩ := Option.map_eq_some_iff.mp he
    exact ⟨ev, hev, TimelineKind.code_inj hkind⟩
  · rintro ⟨ev, hev, rfl⟩
    exact ⟨.ofEvent ev, by rw [hev, Option.map_some], rfl⟩

namespace SafetyTrace

/-- Behind every recovery stands an event that goes with it. -/
def Answered (goes : TimelineEvent → TimelineEvent → Prop) (timeline : List TimelineEvent) : Prop :=
  ∀ i ev, timeline[i]? = some ev → ev.kind = .recovery →
    ∃ ev', timeline[i + 1]? = some ev' ∧ goes ev ev'

theorem Answered.append {goes : TimelineEvent → TimelineEvent → Prop}
    {timeline timeline' : List TimelineEvent} (h : Answered goes timeline)
    (h' : Answered goes timeline') : Answered goes (timeline ++ timeline') := by
  intro i ev hev hkind
  obtain hlt | hge := Nat.lt_or_ge i timeline.length
  · rw [List.getElem?_append_left hlt] at hev
    obtain ⟨ev', hnext, hgoes⟩ := h i ev hev hkind
    refine ⟨ev', ?_, hgoes⟩
    rw [List.getElem?_append_left (List.getElem?_eq_some_iff.mp hnext).1, hnext]
  · rw [List.getElem?_append_right hge] at hev
    obtain ⟨ev', hnext, hgoes⟩ := h' _ ev hev hkind
    refine ⟨ev', ?_, hgoes⟩
    rw [List.getElem?_append_right (by omega), ← hnext]
    congr 1
    omega

end SafetyTrace

namespace SafetyCoproDev
variable {dev dev' : SafetyCoproDev} {ctx : Context} {op : DevOp} {trace : List TraceEvent}

/-- What the expiry of the watchdog traces first. -/
def expiry (dev : SafetyCoproDev) : DevOp → List TraceEvent
  | .hbTimer =>
      if dev.hbTimerArmed then [.timeoutDetected dev.hbTimeoutMs (dev.timeoutCount + 1)] else []
  | _ => []

theorem expiry_eq_nil (h : op = .hbTimer → dev.hbTimerArmed = false) : dev.expiry op = [] := by
  cases op with
  | hbTimer => rw [expiry, h rfl, if_neg Bool.false_ne_true]
  | _ => rfl

/-- Only the watchdog traces a timeout. -/
theorem Called.expiry (h : Called dev ctx op dev' trace) :
    (trace.filter fun e => e.counter = .timeoutDetected) = dev.expiry op := by
  have hsynth : ∀ {dev : SafetyCoproDev} {s : Synth},
      ((dev.offerSynth ctx s).2.filter fun e => e.counter = .timeoutDetected) = [] := by
    intro dev s
    refine List.filter_eq_nil_iff.mpr fun e he => ?_
    obtain ⟨-, seq, type, qlen, rfl⟩ | ⟨seq, type, rfl⟩ := mem_offerSynth he <;>
      exact Bool.false_ne_true
  cases h with
  | kept hidle htrace =>
      rw [expiry_eq_nil]
      · refine List.filter_eq_nil_iff.mpr fun e he => ?_
        obtain ⟨events, rfl⟩ := htrace.mem he
        exact Bool.false_ne_true
      · rintro rfl
        exact hidle
  | @refused _ hmalformed vres hvres =>
      rw [expiry_eq_nil]
      · rfl
      · rintro rfl
        exact hmalformed.elim
  | injected faultType => exact hsynth
  | expired harmed =>
      rw [List.filter_cons_of_pos rfl, hsynth, expiry, if_pos harmed]
  | recovered hqueued =>
      rw [List.filter_cons_of_neg Bool.false_ne_true, hsynth]
      rfl
  | _ => rfl

/-- A recovery is traced with the report it makes. -/
theorem Called.report (h : Called dev ctx op dev' trace)
    (hroom : op = .recoveryWork → dev.rxFifo.length < dev.fifoDepth) :
    (∀ count, .recoveryQueued count ∉ trace) ∨
      op = .recoveryWork ∧ ∃ count seq qlen,
        trace = [.recoveryQueued count, .frameReceived seq safetyFrameRecoveryReport qlen] := by
  by_cases hop : op = .recoveryWork
  · subst hop
    cases h with
    | kept hidle htrace =>
        refine Or.inl fun count hmem => ?_
        obtain ⟨events, heq⟩ := htrace.mem hmem
        cases heq
    | refused hmalformed hvres => exact hmalformed.elim
    | recovered hqueued =>
        refine Or.inr ⟨rfl, _, _, _, congrArg (_ :: ·) (offerSynth_room ?_)⟩
        exact hroom rfl
  · exact Or.inl fun count hmem => hop (h.queued hmem)

end SafetyCoproDev

namespace TracedDevice

end TracedDevice

/-! ### The report -/

namespace SafetyTrace

/-- Where a recovery is answered at once, the pairing rule takes the answer. -/
theorem Answered.restored {goes : TimelineEvent → TimelineEvent → Prop}
    {events : List TimelineEvent} (h : Answered goes events)
    (hgoes : ∀ ev ev', goes ev ev' → ev'.kind = .heartbeatRestored) {p : CycleEvents} {next r : Nat}
    (hwindow : Window (events.map .ofEvent) p.timeout next)
    (hfollows : p.Follows (events.map .ofEvent) next) (hr : p.recovery = some r) :
    p.restored = some (r + 1) ∧ ∃ ev ev', events[r]? = some ev ∧ events[r + 1]? = some ev' ∧
      goes ev ev' := by
  obtain ⟨timeout, recovery, restored⟩ := p
  obtain rfl : recovery = some r := hr
  obtain ⟨⟨hlo, hhi, hkind, -⟩, hrestored⟩ := hfollows
  obtain ⟨ev, hev, hkind⟩ := (@kindAt_ofEvent events .recovery r).mp hkind
  obtain ⟨ev', hev', hpair⟩ := h r ev hev hkind
  have hat : KindAt (events.map .ofEvent) tlHeartbeatRestored (r + 1) :=
    (@kindAt_ofEvent events .heartbeatRestored (r + 1)).mpr ⟨ev', hev', hgoes ev ev' hpair⟩
  refine ⟨?_, ev, ev', hev, hev', hpair⟩
  cases restored with
  | none =>
      -- the answer is neither at the end nor at the next timeout
      have hnext : next ≠ r + 1 := by
        rintro rfl
        obtain hend | htimeout := hwindow.stop
        · have hlt := (List.getElem?_eq_some_iff.mp hev').1
          rw [List.length_map] at hend
          omega
        · obtain ⟨e, he, hrestored⟩ := hat
          obtain ⟨e', he', htimeout⟩ := htimeout
          rw [he'] at he
          obtain rfl := Option.some.inj he
          exact absurd (htimeout.symm.trans hrestored) (by decide)
      exact absurd hat (hrestored (r + 1) le_rfl (by omega))
  | some k =>
      obtain ⟨hle, -, -, hfirst⟩ := hrestored
      obtain heq | hlt := Nat.eq_or_lt_of_le hle
      · rw [heq]
      · exact absurd hat (hfirst (r + 1) le_rfl hlt)

end SafetyTrace

end SafetyCopro
