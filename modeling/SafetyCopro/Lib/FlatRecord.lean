import SafetyCopro.Lib.Text

/-!
One-level records written as JSON text, `{"key":value,"key":value}`, and the
search for a member by its quoted key. The point of the file is that a search
for `"key":` finds the member and never a piece of an earlier value, because
an escaped string shows a quote only behind a backslash.
-/

namespace FlatRecord
open Text

def quote : BitVec 8 := ofChar '"'
def backslash : BitVec 8 := ofChar '\\'
def colon : BitVec 8 := ofChar ':'
def comma : BitVec 8 := ofChar ','

def Plain (c : BitVec 8) : Prop := c ≠ quote ∧ c ≠ backslash ∧ c ≠ colon ∧ c ≠ comma

instance (c : BitVec 8) : Decidable (Plain c) :=
  inferInstanceAs (Decidable (_ ∧ _ ∧ _ ∧ _))

def PlainKey (key : Text) : Prop := key ≠ [] ∧ ∀ c ∈ key, Plain c

instance (key : Text) : Decidable (PlainKey key) :=
  inferInstanceAs (Decidable (_ ∧ _))

/-- Text in which a backslash guards the byte behind it and no quote stands
unguarded. -/
inductive Escaped : Text → Prop
  | nil : Escaped []
  | plain {c s} : c ≠ quote → c ≠ backslash → Escaped s → Escaped (c :: s)
  | pair {c s} : Escaped s → Escaped (backslash :: c :: s)

theorem Escaped.append {u v : Text} (hu : Escaped u) (hv : Escaped v) : Escaped (u ++ v) := by
  induction hu with
  | nil => exact hv
  | plain hq hb _ ih => exact .plain hq hb ih
  | pair _ ih => exact .pair ih

/-- A member's value: the text of a number, or a string in escaped form. -/
inductive Value
  | num (t : Text)
  | str (t : Text)

def Value.Wf : Value → Prop
  | .num t => quote ∉ t
  | .str t => Escaped t

def Value.render : Value → Text
  | .num t => t
  | .str t => quote :: (t ++ [quote])

/-- The text a reader looks for, `"key":` and what it expects behind it. -/
def keyPattern (key more : Text) : Text := quote :: (key ++ (quote :: colon :: more))

def member (key : Text) (v : Value) : Text := keyPattern key v.render

/-- The members separated by commas, up to and with the closing brace. -/
def render (closing : BitVec 8) : List (Text × Value) → Text
  | [] => [closing]
  | [m] => member m.1 m.2 ++ [closing]
  | m :: ms => member m.1 m.2 ++ comma :: render closing ms

def restOf (closing : BitVec 8) (ms : List (Text × Value)) : Text :=
  if ms = [] then [closing] else comma :: render closing ms

theorem render_cons (closing : BitVec 8) (m : Text × Value) (ms : List (Text × Value)) :
    render closing (m :: ms) = member m.1 m.2 ++ restOf closing ms := by
  cases ms <;> rfl

theorem render_append (closing : BitVec 8) (ms : List (Text × Value)) (m : Text × Value)
    (ms' : List (Text × Value)) :
    render closing (ms ++ m :: ms') =
      (ms.flatMap fun m => member m.1 m.2 ++ [comma]) ++ render closing (m :: ms') := by
  induction ms with
  | nil => rfl
  | cons n ms ih =>
      have hne : ms ++ m :: ms' ≠ [] := by simp
      rw [List.cons_append, render_cons, restOf, if_neg hne, ih, List.flatMap_cons]
      simp only [List.append_assoc, List.cons_append, List.nil_append]

/-- A key cannot begin inside an escaped string: it would need an unguarded
quote followed by a colon before the string is closed by a quote and a comma. -/
theorem key_not_prefix {key e : Text} (hk : ∀ c ∈ key, Plain c) (he : Escaped e)
    (more s : Text) :
    ¬ key ++ (quote :: colon :: more) <+: e ++ (quote :: comma :: s) := by
  induction he generalizing key with
  | nil =>
      cases key with
      | nil =>
          intro h
          have h := (List.cons_prefix_cons.mp (List.cons_prefix_cons.mp h).2).1
          exact absurd h (by decide)
      | cons k key =>
          intro h
          exact (hk k List.mem_cons_self).1 (List.cons_prefix_cons.mp h).1
  | @plain c e hq hb _ ih =>
      cases key with
      | nil =>
          intro h
          exact hq (List.cons_prefix_cons.mp h).1.symm
      | cons k key =>
          intro h
          exact ih (fun d hd => hk d (List.mem_cons_of_mem _ hd)) (List.cons_prefix_cons.mp h).2
  | @pair c e _ ih =>
      cases key with
      | nil =>
          intro h
          exact absurd (List.cons_prefix_cons.mp h).1 (by decide)
      | cons k key =>
          intro h
          exact (hk k List.mem_cons_self).2.1 (List.cons_prefix_cons.mp h).1

theorem key_eq_of_startsWith {key key' : Text} (hk : quote ∉ key) (hk' : quote ∉ key') {r s : Text}
    (h : key ++ quote :: r <+: key' ++ quote :: s) : key = key' := by
  induction key generalizing key' with
  | nil =>
      cases key' with
      | nil => rfl
      | cons k' key' =>
          have := (List.cons_prefix_cons.mp h).1
          simp [← this] at hk'
  | cons k key ih =>
      cases key' with
      | nil =>
          have := (List.cons_prefix_cons.mp h).1
          simp [this] at hk
      | cons k' key' =>
          simp only [List.mem_cons, not_or] at hk hk'
          obtain ⟨rfl, htail⟩ := List.cons_prefix_cons.mp h
          rw [ih hk.2 hk'.2 htail]

theorem not_mem_of_plain {key : Text} (hk : ∀ c ∈ key, Plain c) : quote ∉ key :=
  fun h => (hk quote h).1 rfl

section Skip
variable {key more : Text}

theorem key_not_prefix_cons (hk : PlainKey key) {c : BitVec 8} (hc : ¬ Plain c) (s : Text) :
    ¬ key ++ (quote :: colon :: more) <+: c :: s := by
  obtain ⟨hne, hplain⟩ := hk
  cases key with
  | nil => exact absurd rfl hne
  | cons k key =>
      intro h
      have hkc : k = c := (List.cons_prefix_cons.mp h).1
      exact hc (hkc ▸ hplain k List.mem_cons_self)

theorem skips_escaped (hk : PlainKey key) {e : Text} (he : Escaped e) (s : Text) :
    Skips (keyPattern key more) e (quote :: comma :: s) := by
  induction he with
  | nil => trivial
  | plain hq _ _ ih => exact ⟨fun h => hq (List.cons_prefix_cons.mp h).1.symm, ih⟩
  | pair he ih =>
      refine ⟨fun h => ?_, fun h => ?_, ih⟩
      · exact absurd (List.cons_prefix_cons.mp h).1 (by decide)
      · exact key_not_prefix hk.2 he more s (List.cons_prefix_cons.mp h).2

theorem skips_value (hk : PlainKey key) {v : Value} (hv : v.Wf) (s : Text) :
    Skips (keyPattern key more) (v.render ++ [comma]) s := by
  cases v with
  | num t =>
      refine skips_of_not_mem (fun h => ?_) s
      rw [Value.render, List.mem_append, List.mem_singleton] at h
      exact h.elim hv (by decide)
  | str e =>
      rw [Value.render, List.cons_append, List.append_assoc]
      refine ⟨fun h => ?_, (skips_append _ _ _ _).mpr ⟨skips_escaped hk hv s, fun h => ?_, ?_⟩⟩
      · rw [List.append_assoc] at h
        exact key_not_prefix hk.2 hv more s (List.cons_prefix_cons.mp h).2
      · exact key_not_prefix_cons hk (c := comma) (by decide) s (List.cons_prefix_cons.mp h).2
      · exact skips_of_not_mem (by decide) s

/-- The search for one key passes over a member with another key. -/
theorem skips_member (hk : PlainKey key) {key' : Text} (hk' : PlainKey key') (hne : key ≠ key')
    {v : Value} (hv : v.Wf) (s : Text) :
    Skips (keyPattern key more) (member key' v ++ [comma]) s := by
  have hq' := not_mem_of_plain hk'.2
  have hsplit : member key' v ++ [comma] =
      quote :: (key' ++ (quote :: colon :: (v.render ++ [comma]))) := by
    simp [member, keyPattern]
  rw [hsplit]
  refine ⟨fun h => ?_, (skips_append _ _ _ _).mpr
    ⟨skips_of_not_mem hq' _, fun h => ?_, fun h => ?_, skips_value hk hv s⟩⟩
  · rw [List.append_assoc] at h
    exact hne (key_eq_of_startsWith (not_mem_of_plain hk.2) hq' (List.cons_prefix_cons.mp h).2)
  · exact key_not_prefix_cons hk (c := colon) (by decide) _ (List.cons_prefix_cons.mp h).2
  · exact absurd (List.cons_prefix_cons.mp h).1 (by decide)

/-- A reader that looks for a key stands behind it in its member, when no
earlier member has that key. -/
theorem behind_key (hk : PlainKey key) {opening : BitVec 8} (ho : opening ≠ quote)
    (closing : BitVec 8) {ms : List (Text × Value)}
    (hms : ∀ m ∈ ms, PlainKey m.1 ∧ key ≠ m.1 ∧ m.2.Wf)
    {v : Value} {t : Text} (hv : v.render = more ++ t) (ms' : List (Text × Value)) :
    behind (keyPattern key more) (opening :: render closing (ms ++ (key, v) :: ms')) =
      some (t ++ restOf closing ms') := by
  have hskip : ∀ s, Skips (keyPattern key more)
      (ms.flatMap fun m => member m.1 m.2 ++ [comma]) s := by
    intro s
    induction ms with
    | nil => trivial
    | cons m ms ih =>
        obtain ⟨hkm, hne, hvm⟩ := hms m List.mem_cons_self
        rw [List.flatMap_cons, skips_append]
        exact ⟨skips_member hk hkm hne hvm _, ih fun m hm => hms m (List.mem_cons_of_mem _ hm)⟩
  have hsplit : opening :: render closing (ms ++ (key, v) :: ms') =
      (opening :: (ms.flatMap fun m => member m.1 m.2 ++ [comma])) ++
        (keyPattern key more ++ (t ++ restOf closing ms')) := by
    rw [render_append, render_cons]
    simp only [member, keyPattern, hv, List.cons_append, List.append_assoc]
  rw [hsplit]
  exact behind_first _ ⟨fun h => ho (List.cons_prefix_cons.mp h).1.symm, hskip _⟩

end Skip

end FlatRecord
