import SafetyCopro.Supervisor.EventLoop
import SafetyCopro.Supervisor.Replay

/-!
The lines a run leaves behind, as the reader of `replay_mode.cpp` sees them:
every one of them reads back, a received frame drives the reader only if it is a
heartbeat, and lines of output drive it not at all.
-/

namespace SafetyCopro

theorem printable_nil : Printable [] := nofun

theorem printable_of_all {s : Text} (h : s.all (fun c => 0x20 ≤ c.toNat) = true) :
    Printable s := by
  simpa [Printable] using h

theorem printable_append {s t : Text} (hs : Printable s) (ht : Printable t) :
    Printable (s ++ t) := by
  intro c hc
  obtain hc | hc := List.mem_append.mp hc
  · exact hs c hc
  · exact ht c hc

theorem printable_decimal (z : Int) : Printable (Text.decimal z) := by
  intro c hc
  obtain rfl | hdigit := Text.mem_decimal hc
  · decide
  · simp only [Text.isDigit, Bool.and_eq_true, decide_eq_true_eq] at hdigit
    omega

theorem printable_frameTypeName (type : U8) : Printable (frameTypeName type) := by
  unfold frameTypeName
  repeat' split
  all_goals simp [Printable, Text.lit, Text.ofChar]

theorem printable_eventName (event : HealthEvent) : Printable (eventName event) := by
  cases event <;> simp [Printable, eventName, Text.lit, Text.ofChar]

theorem frameTypeName_eq_heartbeat {type : U8} :
    frameTypeName type = Text.lit "HEARTBEAT" ↔ type = safetyFrameHeartbeat := by
  refine ⟨fun h => ?_, fun h => if_pos h⟩
  by_contra hne
  rw [frameTypeName, if_neg hne] at h
  repeat' split at h
  all_goals exact absurd h (by decide)

/-- A received frame drives the reader only if it is a heartbeat: the detail of
the line is empty, so no fault is read as critical. -/
theorem drives_rxFrame {e : LogEvent} (type : U8) (hkind : e.kind = .rxFrame)
    (htype : e.frameType = frameTypeName type) (hdetail : e.detail = []) (s : HealthState) :
    e.drives s =
      if type = safetyFrameHeartbeat then some (EventLoop.heartbeatEvent s) else none := by
  have hcritical : ¬ (Text.contains [] (Text.lit "critical") ∨
      Text.contains [] (Text.lit "severity=2")) := by decide
  simp only [LogEvent.drives, hkind, htype, hdetail, frameTypeName_eq_heartbeat, hcritical,
    and_false, if_false]
  rfl

theorem mem_replay {s : HealthState} {log : List LogEvent} {r : TransitionResult}
    (h : r ∈ Machine.outputs HealthState.replay s log) :
    ∃ e ∈ log, ∃ s', e.drives s' = some r.event := by
  induction log generalizing s with
  | nil => cases h
  | cons e log ih =>
      obtain h | h := List.mem_append.mp h
      · obtain ⟨event, hevent, rfl⟩ := List.mem_map.mp (List.mem_filter.mp h).1
        exact ⟨e, List.mem_cons_self, s, Option.mem_toList.mp hevent⟩
      · obtain ⟨e', he', hdrives⟩ := ih h
        exact ⟨e', List.mem_cons_of_mem _ he', hdrives⟩

theorem drives_ne_recoveryFailed (e : LogEvent) (s : HealthState) :
    e.drives s ≠ some .recoveryFailed := by
  intro h
  unfold LogEvent.drives at h
  repeat' split at h
  all_goals cases h

/-- A critical fault would have to be told by the detail of a received frame. -/
theorem drives_ne_criticalFault {e : LogEvent} (h : e.kind = .rxFrame → e.detail = [])
    (s : HealthState) : e.drives s ≠ some .criticalFault := by
  have hcritical : ¬ (Text.contains [] (Text.lit "critical") ∨
      Text.contains [] (Text.lit "severity=2")) := by decide
  intro hdrives
  unfold LogEvent.drives at hdrives
  split at hdrives
  · rename_i hkind
    rw [h hkind] at hdrives
    simp only [hcritical, and_false, if_false] at hdrives
    repeat' split at hdrives
    all_goals cases hdrives
  · cases hdrives
  · split at hdrives <;> cases hdrives
  · cases hdrives

/-- A line of output, which the reader passes over. -/
def LogEvent.Quiet (e : LogEvent) : Prop :=
  e.kind ≠ .rxFrame ∧ e.kind ≠ .timeout ∧ e.kind ≠ .txCommand

instance (e : LogEvent) : Decidable e.Quiet := inferInstanceAs (Decidable (_ ∧ _ ∧ _))

theorem LogEvent.Quiet.drives {e : LogEvent} (h : e.Quiet) (s : HealthState) :
    e.drives s = none := by
  obtain ⟨tsMs, kind, frameType, seq, fault, fromState, toState, detail⟩ := e
  cases kind with
  | rxFrame => exact absurd rfl h.1
  | timeout => exact absurd rfl h.2.1
  | txCommand => exact absurd rfl h.2.2
  | _ => rfl

theorem replay_of_drives_none {log : List LogEvent} {s : HealthState}
    (h : ∀ e ∈ log, e.drives s = none) :
    Machine.after HealthState.replay s log = s ∧
      Machine.outputs HealthState.replay s log = [] := by
  induction log with
  | nil => exact ⟨rfl, rfl⟩
  | cons e log ih =>
      have he : s.replay e = (s, []) := by
        simp [HealthState.replay, h e List.mem_cons_self]
      rw [Machine.after_cons, Machine.outputs_cons, he]
      exact ih fun e' he' => h e' (List.mem_cons_of_mem _ he')

theorem replay_quiet {log : List LogEvent} (h : ∀ e ∈ log, e.Quiet) (s : HealthState) :
    Machine.after HealthState.replay s log = s ∧
      Machine.outputs HealthState.replay s log = [] :=
  replay_of_drives_none fun e he => (h e he).drives s

theorem replay_cons_quiet {log : List LogEvent} (h : ∀ e ∈ log, e.Quiet) (e : LogEvent)
    (s : HealthState) :
    Machine.after HealthState.replay s (e :: log) = (s.replay e).1 ∧
      Machine.outputs HealthState.replay s (e :: log) = (s.replay e).2 := by
  have hlog := replay_quiet h (s.replay e).1
  rw [Machine.after_cons, Machine.outputs_cons, hlog.1, hlog.2, List.append_nil]
  exact ⟨rfl, rfl⟩

def Effect.Quiet : Effect → Prop
  | .log e => e.Quiet
  | _ => True

theorem quiet_logOf (effs : List Effect) (h : ∀ eff ∈ effs, eff.Quiet) :
    ∀ e ∈ logOf effs, e.Quiet := by
  intro e he
  obtain he | ⟨r, -, -, rfl⟩ := mem_logOf he
  · exact h _ he
  · exact ⟨nofun, nofun, nofun⟩

/-! ### Lines that read back -/

def Effect.Readable : Effect → Prop
  | .log e => e.Readable
  | _ => True

theorem readable_logOf {effs : List Effect} (h : ∀ eff ∈ effs, eff.Readable) :
    ∀ e ∈ logOf effs, e.Readable := by
  intro e he
  obtain he | ⟨r, -, -, rfl⟩ := mem_logOf he
  · exact h _ he
  · exact ⟨printable_nil, printable_eventName r.event⟩

end SafetyCopro
