import SafetyCopro.Lib.FlatRecord
import SafetyCopro.Protocol.Wire

/-!
The lines of `events.jsonl`, `logger_worker.cpp`. The worker thread is the only
writer and keeps the order of the pushes, so the file of a run is its list of
log events, each serialized on its own line.
-/

namespace SafetyCopro
open FlatRecord

/-- `int64_t` and `int`, read with `BitVec.toInt`. -/
abbrev I64 := BitVec 64
abbrev I32 := BitVec 32

inductive LogKind
  | rxFrame | txAck | txNack | txCommand | timeout | stateChange | duplicate | checksumError
  | recoveryResult
deriving DecidableEq, Repr

def logKindName : LogKind → Text
  | .rxFrame => Text.lit "rx_frame"
  | .txAck => Text.lit "tx_ack"
  | .txNack => Text.lit "tx_nack"
  | .txCommand => Text.lit "tx_command"
  | .timeout => Text.lit "timeout"
  | .stateChange => Text.lit "state_change"
  | .duplicate => Text.lit "duplicate"
  | .checksumError => Text.lit "checksum_error"
  | .recoveryResult => Text.lit "recovery_result"

structure LogEvent where
  tsMs : I64 := 0
  kind : LogKind := .rxFrame
  frameType : Text := []
  seq : I32 := -1
  fault : Text := []
  fromState : Text := []
  toState : Text := []
  detail : Text := []
deriving DecidableEq

def hexDigit (n : Nat) : U8 := (Text.lit "0123456789abcdef").getD n 0

/-- One turn of the loop of `append_json_escaped`. -/
def jsonEscape (c : U8) : Text :=
  if c = Text.ofChar '"' then Text.lit "\\\""
  else if c = Text.ofChar '\\' then Text.lit "\\\\"
  else if c = Text.ofChar '\n' then Text.lit "\\n"
  else if c = Text.ofChar '\r' then Text.lit "\\r"
  else if c = Text.ofChar '\t' then Text.lit "\\t"
  else if c.toNat < 0x20 then
    Text.lit "\\u00" ++ [hexDigit (c.toNat / 16 % 16), hexDigit (c.toNat % 16)]
  else [c]

def appendJsonEscaped (s : Text) : Text := s.flatMap jsonEscape

def serializeEvent (e : LogEvent) : Text :=
  Text.lit "\x7b\"ts_ms\":" ++ Text.decimal e.tsMs.toInt ++
  Text.lit ",\"kind\":\"" ++ logKindName e.kind ++
  Text.lit "\",\"frame_type\":\"" ++ appendJsonEscaped e.frameType ++
  Text.lit "\",\"seq\":" ++ Text.decimal e.seq.toInt ++
  Text.lit ",\"fault\":\"" ++ appendJsonEscaped e.fault ++
  Text.lit "\",\"from_state\":\"" ++ appendJsonEscaped e.fromState ++
  Text.lit "\",\"to_state\":\"" ++ appendJsonEscaped e.toState ++
  Text.lit "\",\"detail\":\"" ++ appendJsonEscaped e.detail ++
  Text.lit "\"\x7d"

/-- The file `LoggerWorker::run` writes. -/
def eventsJsonl (log : List LogEvent) : Text :=
  log.flatMap fun e => serializeEvent e ++ [Text.newline]

theorem hexDigit_plain {n : Nat} (h : n < 16) :
    hexDigit n ≠ quote ∧ hexDigit n ≠ backslash ∧ hexDigit n ≠ Text.newline := by
  have hall : ∀ n : Fin 16, hexDigit n ≠ quote ∧ hexDigit n ≠ backslash ∧
      hexDigit n ≠ Text.newline := by decide
  exact hall ⟨n, h⟩

theorem jsonEscape_escaped (c : U8) : Escaped (jsonEscape c) := by
  unfold jsonEscape
  split
  · exact .pair .nil
  · rename_i hquote
    split
    · exact .pair .nil
    · rename_i hbackslash
      split
      · exact .pair .nil
      split
      · exact .pair .nil
      split
      · exact .pair .nil
      split
      · have hi := hexDigit_plain (n := c.toNat / 16 % 16) (by omega)
        have lo := hexDigit_plain (n := c.toNat % 16) (by omega)
        refine .pair (.plain (by decide) (by decide) (.plain (by decide) (by decide) ?_))
        exact .plain hi.1 hi.2.1 (.plain lo.1 lo.2.1 .nil)
      · exact .plain hquote hbackslash .nil

theorem appendJsonEscaped_escaped (s : Text) : Escaped (appendJsonEscaped s) := by
  induction s with
  | nil => exact .nil
  | cons c s ih =>
      rw [appendJsonEscaped, List.flatMap_cons]
      exact (jsonEscape_escaped c).append ih

/-! ### The line as a record -/

def openBrace : U8 := Text.ofChar '\x7b'
def closeBrace : U8 := Text.ofChar '\x7d'

/-- The locked schema: the members of a line, in order. -/
def LogEvent.members (e : LogEvent) : List (Text × Value) :=
  [(Text.lit "ts_ms", .num (Text.decimal e.tsMs.toInt)),
    (Text.lit "kind", .str (logKindName e.kind)),
    (Text.lit "frame_type", .str (appendJsonEscaped e.frameType)),
    (Text.lit "seq", .num (Text.decimal e.seq.toInt)),
    (Text.lit "fault", .str (appendJsonEscaped e.fault)),
    (Text.lit "from_state", .str (appendJsonEscaped e.fromState)),
    (Text.lit "to_state", .str (appendJsonEscaped e.toState)),
    (Text.lit "detail", .str (appendJsonEscaped e.detail))]

private theorem lit_tsMs : Text.lit "\x7b\"ts_ms\":" =
    openBrace :: keyPattern (Text.lit "ts_ms") [] := by decide
private theorem lit_kind : Text.lit ",\"kind\":\"" =
    comma :: keyPattern (Text.lit "kind") [quote] := by decide
private theorem lit_frameType : Text.lit "\",\"frame_type\":\"" =
    quote :: comma :: keyPattern (Text.lit "frame_type") [quote] := by decide
private theorem lit_seq : Text.lit "\",\"seq\":" =
    quote :: comma :: keyPattern (Text.lit "seq") [] := by decide
private theorem lit_fault : Text.lit ",\"fault\":\"" =
    comma :: keyPattern (Text.lit "fault") [quote] := by decide
private theorem lit_fromState : Text.lit "\",\"from_state\":\"" =
    quote :: comma :: keyPattern (Text.lit "from_state") [quote] := by decide
private theorem lit_toState : Text.lit "\",\"to_state\":\"" =
    quote :: comma :: keyPattern (Text.lit "to_state") [quote] := by decide
private theorem lit_detail : Text.lit "\",\"detail\":\"" =
    quote :: comma :: keyPattern (Text.lit "detail") [quote] := by decide
private theorem lit_close : Text.lit "\"\x7d" = [quote, closeBrace] := by decide

theorem serializeEvent_eq_render (e : LogEvent) :
    serializeEvent e = openBrace :: render closeBrace e.members := by
  delta serializeEvent
  simp only [lit_tsMs, lit_kind, lit_frameType, lit_seq, lit_fault,
    lit_fromState, lit_toState, lit_detail, lit_close, LogEvent.members, render, member,
    keyPattern, Value.render, List.append_assoc, List.cons_append, List.nil_append]

theorem logKindName_plain (k : LogKind) :
    ∀ c ∈ logKindName k, c ≠ quote ∧ c ≠ backslash ∧ c ≠ Text.newline := by
  cases k <;>
    simp [logKindName, Text.lit, Text.ofChar, quote, backslash, Text.newline]

theorem escaped_of_plain {s : Text} (h : ∀ c ∈ s, c ≠ quote ∧ c ≠ backslash) : Escaped s := by
  induction s with
  | nil => exact .nil
  | cons c s ih =>
      have hc := h c List.mem_cons_self
      exact .plain hc.1 hc.2 (ih fun d hd => h d (List.mem_cons_of_mem _ hd))

theorem quote_not_mem_decimal (z : Int) : quote ∉ Text.decimal z := by
  intro h
  obtain h | h := Text.mem_decimal h
  · exact absurd h (by decide)
  · exact absurd h (by decide)

private theorem plainKey_schema : PlainKey (Text.lit "ts_ms") ∧ PlainKey (Text.lit "kind") ∧
    PlainKey (Text.lit "frame_type") ∧ PlainKey (Text.lit "seq") ∧
    PlainKey (Text.lit "fault") ∧ PlainKey (Text.lit "from_state") ∧
    PlainKey (Text.lit "to_state") ∧ PlainKey (Text.lit "detail") := by
  simp [PlainKey, Plain, Text.lit, Text.ofChar, quote, backslash, colon, comma]

theorem members_wf (e : LogEvent) : ∀ m ∈ e.members, PlainKey m.1 ∧ m.2.Wf := by
  have hkind : Escaped (logKindName e.kind) := escaped_of_plain fun c hc =>
    ⟨(logKindName_plain e.kind c hc).1, (logKindName_plain e.kind c hc).2.1⟩
  obtain ⟨htsMs, hkindKey, hframeType, hseq, hfault, hfrom, hto, hdetail⟩ := plainKey_schema
  simp only [LogEvent.members, List.forall_mem_cons, List.not_mem_nil, false_implies,
    implies_true, and_true]
  exact ⟨⟨htsMs, quote_not_mem_decimal _⟩, ⟨hkindKey, hkind⟩,
    ⟨hframeType, appendJsonEscaped_escaped _⟩, ⟨hseq, quote_not_mem_decimal _⟩,
    ⟨hfault, appendJsonEscaped_escaped _⟩, ⟨hfrom, appendJsonEscaped_escaped _⟩,
    ⟨hto, appendJsonEscaped_escaped _⟩, ⟨hdetail, appendJsonEscaped_escaped _⟩⟩

/-! ### One event, one line -/

theorem newline_not_mem_jsonEscape (c : U8) : Text.newline ∉ jsonEscape c := by
  unfold jsonEscape
  split
  · simp [Text.lit, Text.ofChar, Text.newline]
  split
  · simp [Text.lit, Text.ofChar, Text.newline]
  split
  · simp [Text.lit, Text.ofChar, Text.newline]
  · rename_i hnewline
    split
    · simp [Text.lit, Text.ofChar, Text.newline]
    split
    · simp [Text.lit, Text.ofChar, Text.newline]
    split
    · have hi := (hexDigit_plain (n := c.toNat / 16 % 16) (by omega)).2.2
      have lo := (hexDigit_plain (n := c.toNat % 16) (by omega)).2.2
      simp only [List.mem_append, List.mem_cons, List.not_mem_nil, or_false, not_or]
      exact ⟨by simp [Text.lit, Text.ofChar, Text.newline], Ne.symm hi, Ne.symm lo⟩
    · exact fun h => hnewline (List.mem_singleton.mp h).symm

theorem newline_not_mem_escaped (s : Text) : Text.newline ∉ appendJsonEscaped s := by
  intro h
  obtain ⟨c, -, hc⟩ := List.mem_flatMap.mp h
  exact newline_not_mem_jsonEscape c hc

theorem newline_not_mem_decimal (z : Int) : Text.newline ∉ Text.decimal z := by
  intro h
  obtain h | h := Text.mem_decimal h
  · exact absurd h (by decide)
  · exact absurd h (by decide)

theorem newline_not_mem_serializeEvent (e : LogEvent) :
    Text.newline ∉ serializeEvent e := by
  have hkind : Text.newline ∉ logKindName e.kind := fun h =>
    (logKindName_plain e.kind _ h).2.2 rfl
  have hlits : ∀ t ∈ [Text.lit "\x7b\"ts_ms\":", Text.lit ",\"kind\":\"",
      Text.lit "\",\"frame_type\":\"", Text.lit "\",\"seq\":", Text.lit ",\"fault\":\"",
      Text.lit "\",\"from_state\":\"", Text.lit "\",\"to_state\":\"",
      Text.lit "\",\"detail\":\"", Text.lit "\"\x7d"], Text.newline ∉ t := by
    simp [Text.lit, Text.ofChar, Text.newline]
  simp only [List.forall_mem_cons, List.not_mem_nil, false_implies, implies_true,
    and_true] at hlits
  delta serializeEvent
  simp only [List.mem_append, not_or, hlits, hkind, newline_not_mem_escaped,
    newline_not_mem_decimal, not_false_eq_true, and_self]

theorem getLines_eventsJsonl (log : List LogEvent) :
    Text.getLines (eventsJsonl log) = log.map serializeEvent :=
  Text.getLines_flatMap serializeEvent newline_not_mem_serializeEvent log

end SafetyCopro
