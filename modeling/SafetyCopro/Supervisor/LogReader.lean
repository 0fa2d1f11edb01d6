import SafetyCopro.Supervisor.EventLog

/-!
The reader of a log line, `extract_string` and `extract_int` of
`replay_mode.cpp`. A field is found by searching the line for its quoted key.
The value read is made of the field's own text, whatever the other fields hold;
it is the field itself unless that holds a control character which is written
as `\u00XX`.
-/

namespace SafetyCopro
open FlatRecord

/-- The `switch` on the byte behind a backslash. -/
def unescape (nx : U8) : U8 :=
  if nx = Text.ofChar 'n' then Text.ofChar '\n'
  else if nx = Text.ofChar 'r' then Text.ofChar '\r'
  else if nx = Text.ofChar 't' then Text.ofChar '\t'
  else nx

/-- The loop of `extract_string`. A backslash at the end of the line stands for
itself. -/
def readString : Text → Text
  | [] => []
  | [c] => if c = quote then [] else [c]
  | c :: nx :: t =>
      if c = backslash then unescape nx :: readString t
      else if c = quote then []
      else c :: readString (nx :: t)

def extractString (line key : Text) : Option Text :=
  (Text.behind (keyPattern key [quote]) line).map readString

def extractInt (line key : Text) : Except Text.StolError (Option Int) :=
  match Text.behind (keyPattern key []) line with
  | none => .ok none
  | some t =>
      if t.head? = some quote then .ok none
      else if Text.numberPrefix t = [] then .ok none
      else (Text.stol (Text.numberPrefix t)).map some

/-! ### Reading a line back -/

theorem readString_quote (t : Text) : readString (quote :: t) = [] := by
  cases t with
  | nil => rfl
  | cons c t => rfl

theorem readString_plain {c : U8} (hq : c ≠ quote) (hb : c ≠ backslash) (t : Text) :
    readString (c :: t) = c :: readString t := by
  cases t with
  | nil => exact if_neg hq
  | cons d t => rw [readString, if_neg hb, if_neg hq]

theorem readString_pair (nx : U8) (t : Text) :
    readString (backslash :: nx :: t) = unescape nx :: readString t := by
  rw [readString, if_pos rfl]

/-- The control characters that both sides have a letter for, and all that are
no control characters. -/
def Undone (c : U8) : Prop :=
  0x20 ≤ c.toNat ∨ c = Text.ofChar '\n' ∨ c = Text.ofChar '\r' ∨ c = Text.ofChar '\t'

instance (c : U8) : Decidable (Undone c) := inferInstanceAs (Decidable (_ ∨ _ ∨ _ ∨ _))

/-- What `extract_string` reads where `append_json_escaped` has written the byte:
of a `\u00XX` it only drops the backslash. -/
def reread (c : U8) : Text :=
  if Undone c then [c]
  else Text.lit "u00" ++ [hexDigit (c.toNat / 16 % 16), hexDigit (c.toNat % 16)]

theorem readString_jsonEscape (c : U8) (t : Text) :
    readString (jsonEscape c ++ t) = reread c ++ readString t := by
  unfold jsonEscape
  split
  · rename_i h
    rw [h]
    exact readString_pair (Text.ofChar '"') t
  rename_i hquote
  split
  · rename_i h
    rw [h]
    exact readString_pair (Text.ofChar '\\') t
  rename_i hbackslash
  split
  · rename_i h
    rw [h]
    exact readString_pair (Text.ofChar 'n') t
  rename_i hn
  split
  · rename_i h
    rw [h]
    exact readString_pair (Text.ofChar 'r') t
  rename_i hr
  split
  · rename_i h
    rw [h]
    exact readString_pair (Text.ofChar 't') t
  rename_i ht
  split
  · rename_i hcontrol
    have hnot : ¬ Undone c := by
      rintro (h | h | h | h)
      · omega
      · exact hn h
      · exact hr h
      · exact ht h
    have hi := hexDigit_plain (n := c.toNat / 16 % 16) (by omega)
    have lo := hexDigit_plain (n := c.toNat % 16) (by omega)
    have hu := readString_pair (Text.ofChar 'u')
    have hzero := @readString_plain (Text.ofChar '0') (by decide) (by decide)
    rw [reread, if_neg hnot]
    show readString (backslash :: Text.ofChar 'u' :: Text.ofChar '0' :: Text.ofChar '0' ::
      hexDigit _ :: hexDigit _ :: t) = _
    rw [hu, hzero, hzero, readString_plain hi.1 hi.2.1, readString_plain lo.1 lo.2.1]
    rfl
  · rename_i hcontrol
    have hundone : Undone c := Or.inl (Nat.not_lt.mp hcontrol)
    rw [reread, if_pos hundone]
    exact readString_plain hquote hbackslash t

theorem readString_escaped_append (s t : Text) :
    readString (appendJsonEscaped s ++ quote :: t) = s.flatMap reread := by
  induction s with
  | nil => exact readString_quote t
  | cons c s ih =>
      rw [appendJsonEscaped, List.flatMap_cons, List.append_assoc, readString_jsonEscape,
        List.flatMap_cons]
      exact congrArg (reread c ++ ·) ih

theorem length_reread (c : U8) : (reread c).length = if Undone c then 1 else 5 := by
  rw [reread]
  split <;> rfl

theorem length_le_flatMap_reread (s : Text) : s.length ≤ (s.flatMap reread).length := by
  induction s with
  | nil => exact Nat.le_refl 0
  | cons c s ih =>
      have hc : 1 ≤ (reread c).length := by
        rw [length_reread]
        split <;> decide
      rw [List.flatMap_cons, List.length_append, List.length_cons]
      omega

/-- A byte that does not come back makes the text longer. -/
theorem flatMap_reread_eq_self_iff (s : Text) : s.flatMap reread = s ↔ ∀ c ∈ s, Undone c := by
  induction s with
  | nil => simp
  | cons c s ih =>
      rw [List.flatMap_cons, List.forall_mem_cons, ← ih]
      by_cases hc : Undone c
      · rw [reread, if_pos hc, List.singleton_append, List.cons_inj_right, and_iff_right hc]
      · refine iff_of_false (fun h => ?_) fun h => hc h.1
        have hlen := congrArg List.length h
        have hrest := length_le_flatMap_reread s
        rw [List.length_append, length_reread, if_neg hc, List.length_cons] at hlen
        omega

/-- Text without control characters. -/
def Printable (s : Text) : Prop := ∀ c ∈ s, 0x20 ≤ c.toNat

instance (s : Text) : Decidable (Printable s) := inferInstanceAs (Decidable (∀ c ∈ s, _))

theorem flatMap_reread_of_printable {s : Text} (h : Printable s) : s.flatMap reread = s :=
  (flatMap_reread_eq_self_iff s).mpr fun c hc => Or.inl (h c hc)

/-- A search of the line for a key of the schema ends at its own member. -/
theorem behind_serializeEvent {e : LogEvent} (ms ms' : List (Text × Value)) {key : Text}
    {v : Value} (hmembers : e.members = ms ++ (key, v) :: ms') (hne : ∀ m ∈ ms, key ≠ m.1)
    {more t : Text} (hrender : v.render = more ++ t) :
    Text.behind (keyPattern key more) (serializeEvent e) = some (t ++ restOf closeBrace ms') := by
  have hwf := members_wf e
  rw [hmembers] at hwf
  have hkey : PlainKey key := (hwf (key, v) (by simp)).1
  have hms : ∀ m ∈ ms, PlainKey m.1 ∧ key ≠ m.1 ∧ m.2.Wf := fun m hm =>
    have h := hwf m (List.mem_append_left _ hm)
    ⟨h.1, hne m hm, h.2⟩
  rw [serializeEvent_eq_render, hmembers]
  exact behind_key hkey (by decide : openBrace ≠ quote) closeBrace hms hrender ms'

theorem extractString_serializeEvent {e : LogEvent} (ms ms' : List (Text × Value))
    {key s : Text} (hmembers : e.members = ms ++ (key, .str s) :: ms')
    (hne : ∀ m ∈ ms, key ≠ m.1) :
    extractString (serializeEvent e) key =
      some (readString (s ++ quote :: restOf closeBrace ms')) := by
  have hrender : (Value.str s).render = [quote] ++ (s ++ [quote]) := rfl
  rw [extractString, behind_serializeEvent ms ms' hmembers hne hrender, Option.map_some,
    List.append_assoc, List.singleton_append]

theorem restOf_eq_cons (ms : List (Text × Value)) :
    ∃ c t, restOf closeBrace ms = c :: t ∧ Text.isDigit c = false := by
  rw [restOf]
  split
  · exact ⟨closeBrace, [], rfl, by decide⟩
  · exact ⟨comma, render closeBrace ms, rfl, by decide⟩

theorem extractInt_of_members {e : LogEvent} (ms ms' : List (Text × Value)) {key : Text} {z : Int}
    (hmembers : e.members = ms ++ (key, .num (Text.decimal z)) :: ms')
    (hne : ∀ m ∈ ms, key ≠ m.1) (hlo : -(2 ^ 63) ≤ z) (hhi : z < 2 ^ 63) :
    extractInt (serializeEvent e) key = .ok (some z) := by
  have hrender : (Value.num (Text.decimal z)).render = [] ++ Text.decimal z := rfl
  obtain ⟨c, t, hrest, hdigit⟩ := restOf_eq_cons ms'
  have hhead : (Text.decimal z ++ c :: t).head? ≠ some quote := by
    intro h
    cases hdec : Text.decimal z with
    | nil => exact Text.decimal_ne_nil _ hdec
    | cons d u =>
        rw [hdec] at h
        obtain rfl : d = quote := Option.some.inj h
        exact quote_not_mem_decimal _ (hdec ▸ List.mem_cons_self)
  rw [extractInt, behind_serializeEvent ms ms' hmembers hne hrender, hrest]
  simp only [hhead, if_false, Text.numberPrefix_decimal _ hdigit, Text.decimal_ne_nil,
    Text.stol_decimal hlo hhi]
  rfl

theorem extractInt_serializeEvent (e : LogEvent) :
    extractInt (serializeEvent e) (Text.lit "ts_ms") = .ok (some e.tsMs.toInt) := by
  have hlo := BitVec.le_two_mul_toInt (x := e.tsMs)
  have hhi := BitVec.two_mul_toInt_lt (x := e.tsMs)
  exact extractInt_of_members [] e.members.tail rfl (by simp) (by omega) (by omega)

/-! ### The fields of a line -/

/-- The keys of a line with a string behind them. -/
inductive StringKey
  | kind | frameType | fault | fromState | toState | detail
deriving DecidableEq, Repr

def StringKey.name : StringKey → Text
  | .kind => Text.lit "kind"
  | .frameType => Text.lit "frame_type"
  | .fault => Text.lit "fault"
  | .fromState => Text.lit "from_state"
  | .toState => Text.lit "to_state"
  | .detail => Text.lit "detail"

namespace LogEvent

def text (e : LogEvent) : StringKey → Text
  | .kind => logKindName e.kind
  | .frameType => e.frameType
  | .fault => e.fault
  | .fromState => e.fromState
  | .toState => e.toState
  | .detail => e.detail

/-- The text between the quotes. The name of the kind is not escaped. -/
def escaped (e : LogEvent) : StringKey → Text
  | .kind => logKindName e.kind
  | k => appendJsonEscaped (e.text k)

theorem escaped_eq (e : LogEvent) (k : StringKey) : e.escaped k = appendJsonEscaped (e.text k) := by
  cases k with
  | kind =>
      show logKindName e.kind = appendJsonEscaped (logKindName e.kind)
      cases e.kind <;> decide
  | _ => rfl

theorem members_split (e : LogEvent) (k : StringKey) :
    ∃ ms ms', e.members = ms ++ (k.name, .str (e.escaped k)) :: ms' ∧ ∀ m ∈ ms, k.name ≠ m.1 := by
  cases k with
  | kind => exact ⟨e.members.take 1, e.members.drop 2, rfl, by simp [members]; decide⟩
  | frameType => exact ⟨e.members.take 2, e.members.drop 3, rfl, by simp [members]; decide⟩
  | fault => exact ⟨e.members.take 4, e.members.drop 5, rfl, by simp [members]; decide⟩
  | fromState => exact ⟨e.members.take 5, e.members.drop 6, rfl, by simp [members]; decide⟩
  | toState => exact ⟨e.members.take 6, e.members.drop 7, rfl, by simp [members]; decide⟩
  | detail => exact ⟨e.members.take 7, e.members.drop 8, rfl, by simp [members]; decide⟩

end LogEvent

/-- The loop of `extract_string` on an escaped text and the quote that closes it. -/
def unescapeText (escaped : Text) : Text := readString (escaped ++ [quote])

theorem unescapeText_escaped (s : Text) : unescapeText (appendJsonEscaped s) = s.flatMap reread :=
  readString_escaped_append s []

theorem extractString_stringKey (e : LogEvent) (k : StringKey) :
    extractString (serializeEvent e) k.name = some ((e.text k).flatMap reread) := by
  obtain ⟨ms, ms', hmembers, hne⟩ := e.members_split k
  rw [extractString_serializeEvent ms ms' hmembers hne, e.escaped_eq, readString_escaped_append]

theorem printable_logKindName (kind : LogKind) : Printable (logKindName kind) := by
  cases kind <;> simp [Printable, logKindName, Text.lit, Text.ofChar]

theorem extractString_of_printable (e : LogEvent) (k : StringKey) (h : Printable (e.text k)) :
    extractString (serializeEvent e) k.name = some (e.text k) := by
  rw [extractString_stringKey, flatMap_reread_of_printable h]

theorem extractInt_seq (e : LogEvent) :
    extractInt (serializeEvent e) (Text.lit "seq") = .ok (some e.seq.toInt) := by
  have hlo := BitVec.le_two_mul_toInt (x := e.seq)
  have hhi := BitVec.two_mul_toInt_lt (x := e.seq)
  exact extractInt_of_members (e.members.take 3) (e.members.drop 4) rfl
    (by simp [LogEvent.members]; decide) (by omega) (by omega)

/-- A line is one line, and each value read from it is made of its own field. -/
theorem serializeEvent_injection_proof (e : LogEvent) :
    Text.newline ∉ serializeEvent e ∧
    extractInt (serializeEvent e) (Text.lit "ts_ms") = .ok (some e.tsMs.toInt) ∧
    extractInt (serializeEvent e) (Text.lit "seq") = .ok (some e.seq.toInt) ∧
    (∀ k, extractString (serializeEvent e) k.name = some (unescapeText (e.escaped k))) ∧
    ∀ e' k, e'.text k = e.text k →
      extractString (serializeEvent e') k.name = extractString (serializeEvent e) k.name := by
  refine ⟨newline_not_mem_serializeEvent e, extractInt_serializeEvent e, extractInt_seq e,
    fun k => ?_, fun e' k htext => ?_⟩
  · rw [extractString_stringKey, e.escaped_eq, unescapeText_escaped]
  · rw [extractString_stringKey, extractString_stringKey, htext]

/-- A field comes back as it was exactly when every byte of it does. -/
theorem extractString_eq_text_iff (e : LogEvent) (k : StringKey) :
    extractString (serializeEvent e) k.name = some (e.text k) ↔ ∀ c ∈ e.text k, Undone c := by
  rw [extractString_stringKey, Option.some_inj, flatMap_reread_eq_self_iff]

/-- The byte `0x01` comes back as five letters. -/
theorem extractString_detail_ne :
    extractString (serializeEvent { detail := [1] }) StringKey.detail.name =
        some (Text.lit "u0001") ∧
      Text.lit "u0001" ≠ [1] := by
  refine ⟨(extractString_stringKey _ _).trans ?_, by decide⟩
  decide

end SafetyCopro
