import SafetyCopro.Supervisor.LogReader
import SafetyCopro.Supervisor.HealthStateMachine
import SafetyCopro.Lib.Machine

/-!
Replay mode, `replay_mode.cpp`: a reader of `events.jsonl` that drives a health
state machine of its own with what the lines tell. `std::stol` may throw, and
then the replay ends there.
-/

namespace SafetyCopro
open FlatRecord

structure Replay where
  fsm : HealthState := .booting
  linesTotal : Nat := 0
  rxFrames : Nat := 0
  timeouts : Nat := 0
  ignored : Nat := 0
deriving DecidableEq, Repr

namespace Replay

/-- `fsm.apply` with the hook of `run_replay`, which writes and counts the
valid transitions. -/
def apply (r : Replay) (event : HealthEvent) : Replay × List TransitionResult :=
  ({ r with fsm := r.fsm.target event }, [r.fsm.apply event].filter TransitionResult.valid)

/-- What `run_replay` does with a line of this kind. The fields are read when a
branch asks for them; a missing one is the empty string. -/
def dispatch (r : Replay) (kind frameType detail : Text) : Replay × List TransitionResult :=
  if kind = Text.lit "rx_frame" then
    let r := { r with rxFrames := r.rxFrames + 1 }
    if frameType = Text.lit "HEARTBEAT" then
      r.apply (if r.fsm = .recovering then .heartbeatRestored else .heartbeatOk)
    else if frameType = Text.lit "FAULT_EVENT" then
      if Text.contains detail (Text.lit "critical") ∨
          Text.contains detail (Text.lit "severity=2") then
        r.apply .criticalFault
      else (r, [])
    else (r, [])
  else if kind = Text.lit "timeout" then
    { r with timeouts := r.timeouts + 1 }.apply .heartbeatTimeout
  else if kind = Text.lit "tx_command" then
    if Text.contains detail (Text.lit "REQUEST_RECOVERY") then r.apply .recoverySent
    else ({ r with ignored := r.ignored + 1 }, [])
  else ({ r with ignored := r.ignored + 1 }, [])

def line (r : Replay) (line : Text) : Except Text.StolError (Replay × List TransitionResult) :=
  if line = [] then .ok (r, [])
  else
    let r := { r with linesTotal := r.linesTotal + 1 }
    match extractString line (Text.lit "kind") with
    | none => .ok (r, [])
    | some kind => do
        let _ ← extractInt line (Text.lit "ts_ms")
        return r.dispatch kind ((extractString line (Text.lit "frame_type")).getD [])
          ((extractString line (Text.lit "detail")).getD [])

def lines (r : Replay) : List Text → Except Text.StolError (Replay × List TransitionResult)
  | [] => .ok (r, [])
  | l :: ls => do
      let (r, ts) ← r.line l
      let (r, ts') ← r.lines ls
      return (r, ts ++ ts')

end Replay

/-- `run_replay` on the text of a file: what it counts and the transitions it
writes. -/
def runReplay (file : Text) : Except Text.StolError (Replay × List TransitionResult) :=
  Replay.lines {} (Text.getLines file)

/-! ### Where a replay ends early -/

/-- A line of some kind with a `ts_ms` that `std::stol` throws on. -/
def BadTimestamp (line : Text) : Prop :=
  Text.contains line (keyPattern (Text.lit "kind") [quote]) ∧
    ∃ t, Text.behind (keyPattern (Text.lit "ts_ms") []) line = some t ∧ Text.Unreadable t

theorem numberPrefix_quote (u : Text) : Text.numberPrefix (quote :: u) = [] := by
  have hsign : ¬ ((quote :: u).head? = some (Text.ofChar '-') ∨
      (quote :: u).head? = some (Text.ofChar '+')) := by
    rw [List.head?_cons, Option.some_inj, Option.some_inj]
    decide
  rw [Text.numberPrefix, if_neg hsign, List.drop_zero, List.takeWhile_cons_of_neg (by decide)]
  rfl

theorem extractInt_error_iff {line key : Text} :
    (∃ err, extractInt line key = .error err) ↔
      ∃ t, Text.behind (keyPattern key []) line = some t ∧ Text.Unreadable t := by
  rw [extractInt]
  cases Text.behind (keyPattern key []) line with
  | none => simp
  | some t =>
      simp only [Option.some_inj, exists_eq_left', Text.unreadable_iff]
      by_cases hhead : t.head? = some quote
      · obtain ⟨u, rfl⟩ := List.head?_eq_some_iff.mp hhead
        rw [if_pos hhead]
        exact iff_of_false (by simp) fun h => h.1 (numberPrefix_quote u)
      · by_cases hnumber : Text.numberPrefix t = []
        · rw [if_neg hhead, if_pos hnumber]
          exact iff_of_false (by simp) fun h => h.1 hnumber
        · rw [if_neg hhead, if_neg hnumber, and_iff_right hnumber]
          cases Text.stol (Text.numberPrefix t) with
          | ok z => simp [Except.map]
          | error err => exact iff_of_true ⟨err, rfl⟩ ⟨err, rfl⟩

theorem extractString_eq_none_iff {line key : Text} :
    extractString line key = none ↔ ¬ Text.contains line (keyPattern key [quote]) := by
  rw [extractString, Option.map_eq_none_iff, Text.behind, Option.map_eq_none_iff, Text.contains]
  simp

namespace Replay

theorem line_ok_iff (r : Replay) (line : Text) :
    (∃ out, r.line line = .ok out) ↔ ¬ BadTimestamp line := by
  rw [BadTimestamp, ← extractInt_error_iff, Replay.line]
  by_cases hnil : line = []
  · rw [if_pos hnil, hnil]
    exact iff_of_true ⟨_, rfl⟩ fun h => absurd h.1 (by decide)
  rw [if_neg hnil]
  cases hkind : extractString line (Text.lit "kind") with
  | none =>
      exact iff_of_true ⟨_, rfl⟩ fun h => extractString_eq_none_iff.mp hkind h.1
  | some kind =>
      have hcontains : Text.contains line (keyPattern (Text.lit "kind") [quote]) := by
        by_contra hnot
        rw [extractString_eq_none_iff.mpr hnot] at hkind
        cases hkind
      rw [and_iff_right hcontains]
      cases extractInt line (Text.lit "ts_ms") with
      | ok ts => exact iff_of_true ⟨_, rfl⟩ (by simp)
      | error err => exact iff_of_false (by simp [bind, Except.bind]) fun h => h ⟨err, rfl⟩

theorem lines_ok_iff (r : Replay) (ls : List Text) :
    (∃ out, r.lines ls = .ok out) ↔ ∀ line ∈ ls, ¬ BadTimestamp line := by
  induction ls generalizing r with
  | nil => simp [lines]
  | cons l ls ih =>
      rw [List.forall_mem_cons, ← r.line_ok_iff l, lines]
      cases r.line l with
      | error err => simp [bind, Except.bind]
      | ok out =>
          rw [and_iff_right ⟨out, rfl⟩, ← ih out.1]
          show (∃ out', (out.1.lines ls >>= fun x => pure (x.1, out.2 ++ x.2)) = .ok out') ↔ _
          cases out.1.lines ls with
          | error err => simp [bind, Except.bind]
          | ok more => exact iff_of_true ⟨_, rfl⟩ ⟨_, rfl⟩

end Replay

/-- A replay comes to its end exactly when no line has such a `ts_ms`. -/
theorem runReplay_ok_iff (file : Text) :
    (∃ out, runReplay file = .ok out) ↔ ∀ line ∈ Text.getLines file, ¬ BadTimestamp line :=
  Replay.lines_ok_iff {} _

/-- A sign without digits, and a number beyond 64 bits. -/
theorem runReplay_throws :
    runReplay (Text.lit "\x7b\"ts_ms\":-,\"kind\":\"timeout\"\x7d") = .error .invalidArgument ∧
    runReplay (Text.lit "\x7b\"ts_ms\":99999999999999999999,\"kind\":\"timeout\"\x7d") =
      .error .outOfRange := by
  decide +kernel

/-! ### Replaying a log -/

structure LogEvent.Readable (e : LogEvent) : Prop where
  frameType : Printable e.frameType
  detail : Printable e.detail

namespace Replay

def event (r : Replay) (e : LogEvent) : Replay × List TransitionResult :=
  { r with linesTotal := r.linesTotal + 1 }.dispatch (logKindName e.kind) e.frameType e.detail

theorem line_serializeEvent (r : Replay) {e : LogEvent} (h : e.Readable) :
    r.line (serializeEvent e) = .ok (r.event e) := by
  have hkind : extractString (serializeEvent e) (Text.lit "kind") = some (logKindName e.kind) :=
    extractString_of_printable e .kind (printable_logKindName e.kind)
  have hframeType : extractString (serializeEvent e) (Text.lit "frame_type") =
      some e.frameType := extractString_of_printable e .frameType h.frameType
  have hdetail : extractString (serializeEvent e) (Text.lit "detail") = some e.detail :=
    extractString_of_printable e .detail h.detail
  have hne : serializeEvent e ≠ [] := by
    rw [serializeEvent_eq_render]
    exact List.cons_ne_nil _ _
  simp only [line, if_neg hne, hkind, extractInt_serializeEvent, hframeType, hdetail,
    Option.getD_some]
  rfl

theorem lines_serializeEvent (r : Replay) {log : List LogEvent} (h : ∀ e ∈ log, e.Readable) :
    r.lines (log.map serializeEvent) =
      .ok (Machine.after event r log, Machine.outputs event r log) := by
  induction log generalizing r with
  | nil => rfl
  | cons e log ih =>
      rw [List.map_cons, lines, line_serializeEvent r (h e List.mem_cons_self)]
      have hrest := ih (r.event e).1 fun e' he' => h e' (List.mem_cons_of_mem _ he')
      simp only [bind, Except.bind, hrest]
      rfl

end Replay

theorem runReplay_eventsJsonl {log : List LogEvent} (h : ∀ e ∈ log, e.Readable) :
    runReplay (eventsJsonl log) =
      .ok (Machine.after Replay.event {} log, Machine.outputs Replay.event {} log) := by
  rw [runReplay, getLines_eventsJsonl]
  exact Replay.lines_serializeEvent {} h

/-! ### The machine behind the counters -/

/-- The event a line drives the machine with. -/
def LogEvent.drives (s : HealthState) (e : LogEvent) : Option HealthEvent :=
  match e.kind with
  | .rxFrame =>
      if e.frameType = Text.lit "HEARTBEAT" then
        some (if s = .recovering then .heartbeatRestored else .heartbeatOk)
      else if e.frameType = Text.lit "FAULT_EVENT" ∧
          (Text.contains e.detail (Text.lit "critical") ∨
            Text.contains e.detail (Text.lit "severity=2")) then
        some .criticalFault
      else none
  | .timeout => some .heartbeatTimeout
  | .txCommand =>
      if Text.contains e.detail (Text.lit "REQUEST_RECOVERY") then some .recoverySent else none
  | _ => none

def HealthState.replay (s : HealthState) (e : LogEvent) : HealthState × List TransitionResult :=
  ((e.drives s).elim s s.target,
    ((e.drives s).toList.map s.apply).filter TransitionResult.valid)

theorem Replay.event_eq (r : Replay) (e : LogEvent) :
    ((r.event e).1.fsm, (r.event e).2) = r.fsm.replay e := by
  obtain ⟨tsMs, kind, frameType, seq, fault, fromState, toState, detail⟩ := e
  cases kind with
  | rxFrame =>
      simp only [Replay.event, dispatch, logKindName, if_true, HealthState.replay, LogEvent.drives]
      split
      · rfl
      split
      · rename_i hfault
        split
        · rename_i hcritical
          rw [if_pos ⟨hfault, hcritical⟩]
          rfl
        · rename_i hcritical
          rw [if_neg fun h => hcritical h.2]
          rfl
      · rename_i hfault
        rw [if_neg fun h => hfault h.1]
        rfl
  | txCommand =>
      have h1 : Text.lit "tx_command" ≠ Text.lit "rx_frame" := by decide
      have h2 : Text.lit "tx_command" ≠ Text.lit "timeout" := by decide
      simp only [Replay.event, dispatch, logKindName, if_neg h1, if_neg h2, if_true,
        HealthState.replay, LogEvent.drives]
      split <;> rfl
  | _ => rfl

theorem Replay.run_eq (r : Replay) (log : List LogEvent) :
    ((Machine.after Replay.event r log).fsm, Machine.outputs Replay.event r log) =
      (Machine.after HealthState.replay r.fsm log,
        Machine.outputs HealthState.replay r.fsm log) := by
  induction log generalizing r with
  | nil => rfl
  | cons e log ih =>
      have he := r.event_eq e
      have hlog := ih (r.event e).1
      simp only [Machine.after_cons, Machine.outputs_cons, Prod.mk.injEq] at hlog ⊢
      rw [hlog.1, hlog.2, ← he]
      exact ⟨rfl, rfl⟩

/-- A replay of the file of this log makes these transitions and ends here. -/
def Reproduces (log : List LogEvent) (ts : List TransitionResult) (s : HealthState) : Prop :=
  ∃ r, runReplay (eventsJsonl log) = .ok (r, ts) ∧ r.fsm = s

theorem reproduces_iff {log : List LogEvent} (h : ∀ e ∈ log, e.Readable)
    (ts : List TransitionResult) (s : HealthState) :
    Reproduces log ts s ↔
      Machine.after HealthState.replay .booting log = s ∧
        Machine.outputs HealthState.replay .booting log = ts := by
  have hrun := Prod.mk.inj (Replay.run_eq {} log)
  rw [Reproduces, runReplay_eventsJsonl h]
  constructor
  · rintro ⟨r, hr, rfl⟩
    obtain ⟨rfl, rfl⟩ := Prod.mk.inj (Except.ok.inj hr)
    exact ⟨hrun.1.symm, hrun.2.symm⟩
  · rintro ⟨rfl, rfl⟩
    exact ⟨Machine.after Replay.event {} log, by rw [hrun.2], hrun.1⟩

end SafetyCopro
