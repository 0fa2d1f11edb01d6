import Mathlib.Algebra.Group.Int.Defs
import Mathlib.Algebra.Group.Nat.Defs
import Mathlib.Data.List.TakeWhile

/-!
Byte strings and the library functions on them that a C++ program uses:
`std::string::find`, `std::to_string`, `std::stol` and `std::getline`.
-/

abbrev Text := List (BitVec 8)

namespace Text

def ofChar (c : Char) : BitVec 8 := BitVec.ofNat 8 c.toNat

def lit (s : String) : Text := s.toList.map ofChar

def newline : BitVec 8 := ofChar '\n'

section Find
variable {α : Type}

/-- No occurrence of `pat` in `u ++ s` starts inside `u`. -/
def Skips (pat : List α) : List α → List α → Prop
  | [], _ => True
  | c :: u, s => ¬ pat <+: c :: (u ++ s) ∧ Skips pat u s

theorem skips_append (pat u v s : List α) :
    Skips pat (u ++ v) s ↔ Skips pat u (v ++ s) ∧ Skips pat v s := by
  induction u with
  | nil => simp [Skips]
  | cons c u ih => simp only [List.cons_append, Skips, ih, List.append_assoc, and_assoc]

theorem skips_of_not_mem {q : α} {pat u : List α} (h : q ∉ u) (s : List α) :
    Skips (q :: pat) u s := by
  induction u with
  | nil => trivial
  | cons c u ih =>
      simp only [List.mem_cons, not_or] at h
      refine ⟨fun hp => h.1 ?_, ih h.2⟩
      exact (List.cons_prefix_cons.mp hp).1

variable [DecidableEq α]

/-- The first position at which `pat` occurs. -/
def find (pat : List α) : List α → Option Nat
  | [] => if pat = [] then some 0 else none
  | c :: s => if pat <+: c :: s then some 0 else (find pat s).map (· + 1)

def contains (s pat : List α) : Bool := (find pat s).isSome

theorem find_skips {pat u : List α} (s : List α) (h : Skips pat u s) :
    find pat (u ++ s) = (find pat s).map (· + u.length) := by
  induction u with
  | nil => simp
  | cons c u ih =>
      simp only [List.cons_append, find, if_neg h.1, ih h.2, Option.map_map]
      rfl

theorem find_self (pat s : List α) : find pat (pat ++ s) = some 0 := by
  cases hs : pat ++ s with
  | nil =>
      obtain ⟨rfl, -⟩ := List.append_eq_nil_iff.mp hs
      rfl
  | cons c t => rw [find, if_pos (hs ▸ List.prefix_append pat s)]

def behind (pat s : List α) : Option (List α) :=
  (find pat s).map fun p => s.drop (p + pat.length)

theorem behind_first {pat u : List α} (s : List α) (h : Skips pat u (pat ++ s)) :
    behind pat (u ++ (pat ++ s)) = some s := by
  have hdrop : (u ++ (pat ++ s)).drop (0 + u.length + pat.length) = s := by
    rw [← List.append_assoc, Nat.zero_add]
    exact List.drop_left' List.length_append
  rw [behind, find_skips _ h, find_self, Option.map_some, Option.map_some, hdrop]

/-- The first occurrence in a text is the first in every longer one. -/
theorem find_append {pat t : List α} {j : Nat} (h : find pat t = some j) (w : List α) :
    find pat (t ++ w) = some j ∧ j + pat.length ≤ t.length := by
  induction t generalizing j with
  | nil =>
      rw [find] at h
      split at h
      · rename_i hpat
        subst hpat
        obtain rfl := Option.some.inj h
        exact ⟨find_self [] w, Nat.le_refl 0⟩
      · cases h
  | cons c t ih =>
      rw [find] at h
      split at h
      · rename_i hpre
        obtain rfl := Option.some.inj h
        have hmore : pat <+: c :: (t ++ w) := hpre.trans (List.prefix_append (c :: t) w)
        refine ⟨?_, (Nat.zero_add _).symm ▸ hpre.length_le⟩
        rw [List.cons_append, find, if_pos hmore]
      · rename_i hpre
        obtain ⟨i, hi, rfl⟩ := Option.map_eq_some_iff.mp h
        obtain ⟨hfind, hlen⟩ := ih hi
        have hlong : i + 1 + pat.length ≤ (c :: t).length := by
          rw [List.length_cons]
          omega
        refine ⟨?_, hlong⟩
        rw [List.cons_append, find, if_neg fun hmore => hpre ?_, hfind, Option.map_some]
        exact List.prefix_of_prefix_length_le hmore (List.prefix_append (c :: t) w) (by omega)

theorem behind_append {pat t s : List α} (h : behind pat t = some s) (w : List α) :
    behind pat (t ++ w) = some (s ++ w) := by
  obtain ⟨j, hj, rfl⟩ := Option.map_eq_some_iff.mp h
  obtain ⟨hfind, hlen⟩ := find_append hj w
  rw [behind, hfind, Option.map_some, List.drop_append_of_le_length hlen]

theorem contains_append {s pat : List α} (h : contains s pat = true) (w : List α) :
    contains (s ++ w) pat = true := by
  obtain ⟨j, hj⟩ := Option.isSome_iff_exists.mp h
  rw [contains, (find_append hj w).1]
  rfl

/-- What a text has not in it at all is no part of an occurrence. -/
theorem contains_concat {s pat : List α} {q : α} (hq : q ∉ pat)
    (h : contains (s ++ [q]) pat = true) : contains s pat = true := by
  induction s with
  | nil =>
      cases pat with
      | nil => rfl
      | cons c pat =>
          have hne : ¬ c :: pat <+: [q] := fun hpre =>
            hq ((List.cons_prefix_cons.mp hpre).1 ▸ List.mem_cons_self)
          rw [List.nil_append, contains, find, if_neg hne, find,
            if_neg (List.cons_ne_nil c pat)] at h
          cases h
  | cons c s ih =>
      rw [contains, List.cons_append, find] at h
      rw [contains, find]
      split at h
      · rename_i hpre
        have hpre : pat <+: c :: s ++ [q] := hpre
        obtain heq | hpre := List.prefix_concat_iff.mp hpre
        · exact absurd (heq ▸ List.mem_append_right (c :: s) List.mem_cons_self) hq
        · rw [if_pos hpre]
          rfl
      · rw [Option.isSome_map] at h
        split
        · rfl
        · rw [Option.isSome_map]
          exact ih h

end Find

/-! ### Decimal numbers -/

def isDigit (c : BitVec 8) : Bool := 48 ≤ c.toNat && c.toNat ≤ 57

def decimalNat (n : Nat) : Text := (Nat.toDigits 10 n).map ofChar

/-- `std::to_string`. -/
def decimal (z : Int) : Text :=
  if z < 0 then ofChar '-' :: decimalNat z.natAbs else decimalNat z.natAbs

def digitsValue (t : Text) : Nat := t.foldl (fun v d => 10 * v + (d.toNat - 48)) 0

inductive StolError
  | invalidArgument | outOfRange
deriving DecidableEq, Repr

/-- `std::stol` on text without leading blanks, for a 64-bit `long`. -/
def stol (t : Text) : Except StolError Int :=
  let negative := t.head? = some (ofChar '-')
  let signed := t.head? = some (ofChar '-') ∨ t.head? = some (ofChar '+')
  let digits := (if signed then t.tail else t).takeWhile isDigit
  if digits = [] then .error .invalidArgument
  else
    let value : Int := if negative then -digitsValue digits else digitsValue digits
    if -(2 ^ 63) ≤ value ∧ value < 2 ^ 63 then .ok value else .error .outOfRange

/-- The longest prefix of an optional sign and digits. -/
def numberPrefix (t : Text) : Text :=
  let sign := if t.head? = some (ofChar '-') ∨ t.head? = some (ofChar '+') then 1 else 0
  t.take (sign + ((t.drop sign).takeWhile isDigit).length)

theorem toNat_ofChar_of_isDigit {c : Char} (h : c.isDigit) : (ofChar c).toNat = c.toNat := by
  have hc : c.toNat ≤ 57 := by
    simp only [Char.isDigit, Bool.and_eq_true, decide_eq_true_eq] at h
    exact h.2
  rw [ofChar, BitVec.toNat_ofNat]
  exact Nat.mod_eq_of_lt (by omega)

theorem isDigit_ofChar {c : Char} (h : c.isDigit) : isDigit (ofChar c) := by
  simp only [isDigit, toNat_ofChar_of_isDigit h, Bool.and_eq_true, decide_eq_true_eq]
  simp only [Char.isDigit, Bool.and_eq_true, decide_eq_true_eq] at h
  exact ⟨h.1, h.2⟩

theorem isDigit_of_mem_decimalNat {n : Nat} {d : BitVec 8} (h : d ∈ decimalNat n) :
    isDigit d := by
  obtain ⟨c, hc, rfl⟩ := List.mem_map.mp h
  exact isDigit_ofChar (Nat.isDigit_of_mem_toDigits (by decide) (by decide) hc)

theorem decimalNat_ne_nil (n : Nat) : decimalNat n ≠ [] := by
  simp [decimalNat, Nat.toDigits_ne_nil]

theorem digitsValue_decimalNat (n : Nat) : digitsValue (decimalNat n) = n := by
  have hfold : ∀ (cs : List Char) (v : Nat), (∀ c ∈ cs, c.isDigit) →
      (cs.map ofChar).foldl (fun v d => 10 * v + (d.toNat - 48)) v =
        Nat.ofDigitChars 10 cs v := by
    intro cs
    induction cs with
    | nil => intro v _; simp
    | cons c cs ih =>
        intro v hcs
        have hc := toNat_ofChar_of_isDigit (hcs c List.mem_cons_self)
        simp only [List.map_cons, List.foldl_cons, hc, Nat.ofDigitChars_cons]
        exact ih _ fun d hd => hcs d (List.mem_cons_of_mem _ hd)
  rw [digitsValue, decimalNat, hfold _ _ fun c hc =>
    Nat.isDigit_of_mem_toDigits (by decide) (by decide) hc]
  exact Nat.ofDigitChars_ten_toDigits

theorem decimal_cases (z : Int) :
    decimal z = (if z < 0 then [ofChar '-'] else []) ++ decimalNat z.natAbs := by
  unfold decimal
  split <;> rfl

theorem decimal_ne_nil (z : Int) : decimal z ≠ [] := by
  rw [decimal_cases]
  simp [decimalNat_ne_nil]

theorem mem_decimal {z : Int} {c : BitVec 8} (h : c ∈ decimal z) :
    c = ofChar '-' ∨ isDigit c := by
  rw [decimal_cases, List.mem_append] at h
  obtain h | h := h
  · split at h
    · exact Or.inl (List.mem_singleton.mp h)
    · simp at h
  · exact Or.inr (isDigit_of_mem_decimalNat h)

/-- Text as `strtol` reads it: an optional sign, digits, and what is no digit. -/
structure Numeral (sign digits rest : Text) : Prop where
  sign : sign = [] ∨ sign = [ofChar '-'] ∨ sign = [ofChar '+']
  digits : ∀ d ∈ digits, isDigit d
  rest : ∀ d ∈ rest.head?, isDigit d = false

def signedValue (sign digits : Text) : Int :=
  if sign = [ofChar '-'] then -digitsValue digits else digitsValue digits

section Numerals
variable {sign digits rest : Text}

theorem head?_ne_of_digits (h : ∀ d ∈ digits, isDigit d) {c : BitVec 8}
    (hc : isDigit c = false) : digits.head? ≠ some c := by
  intro heq
  have hdigit := h c (List.mem_of_head? heq)
  rw [hc] at hdigit
  exact Bool.noConfusion hdigit

theorem numeral_takeWhile (hsign : sign = [] ∨ sign = [ofChar '-'] ∨ sign = [ofChar '+'])
    (t : Text) : Numeral sign (t.takeWhile isDigit) (t.dropWhile isDigit) := by
  refine ⟨hsign, fun d hd => List.mem_takeWhile_imp hd, fun d hd => ?_⟩
  have hhead := List.head?_dropWhile_not isDigit t
  rw [Option.mem_def.mp hd] at hhead
  simpa using hhead

/-- Every text is read so. -/
theorem exists_numeral (t : Text) : ∃ sign digits rest, Numeral sign digits rest ∧
    t = sign ++ (digits ++ rest) ∧ (sign ++ digits = [] → numberPrefix t = []) := by
  by_cases hsigned : t.head? = some (ofChar '-') ∨ t.head? = some (ofChar '+')
  · obtain ⟨c, u, rfl, hc⟩ : ∃ c u, t = c :: u ∧ (c = ofChar '-' ∨ c = ofChar '+') := by
      obtain h | h := hsigned
      · exact ⟨_, _, (List.head?_eq_some_iff.mp h).choose_spec, Or.inl rfl⟩
      · exact ⟨_, _, (List.head?_eq_some_iff.mp h).choose_spec, Or.inr rfl⟩
    have hsign : [c] = [] ∨ [c] = [ofChar '-'] ∨ [c] = [ofChar '+'] := by
      obtain rfl | rfl := hc
      · exact Or.inr (Or.inl rfl)
      · exact Or.inr (Or.inr rfl)
    refine ⟨[c], _, _, numeral_takeWhile hsign u, ?_, nofun⟩
    rw [List.takeWhile_append_dropWhile, List.singleton_append]
  · refine ⟨[], _, _, numeral_takeWhile (Or.inl rfl) t, ?_, fun hnil => ?_⟩
    · rw [List.takeWhile_append_dropWhile, List.nil_append]
    · rw [List.nil_append] at hnil
      simp only [numberPrefix, if_neg hsigned, List.drop_zero, hnil, List.length_nil]
      exact List.take_zero

theorem Numeral.takeWhile (h : Numeral sign digits rest) :
    (digits ++ rest).takeWhile isDigit = digits := by
  rw [List.takeWhile_append_of_pos h.digits]
  cases rest with
  | nil => rw [List.takeWhile_nil, List.append_nil]
  | cons d rest =>
      rw [List.takeWhile_cons_of_neg (by simp [h.rest d rfl]), List.append_nil]

theorem Numeral.numberPrefix_eq (h : Numeral sign digits rest) (hne : sign ++ digits ≠ []) :
    numberPrefix (sign ++ (digits ++ rest)) = sign ++ digits := by
  have hhead : ∀ c, isDigit c = false → digits ≠ [] → (digits ++ rest).head? ≠ some c := by
    intro c hc hdigits
    have hne := head?_ne_of_digits h.digits hc
    cases digits with
    | nil => exact absurd rfl hdigits
    | cons d digits => exact hne
  obtain rfl | rfl | rfl := h.sign
  · have hminus := hhead (ofChar '-') (by decide) hne
    have hplus := hhead (ofChar '+') (by decide) hne
    simp only [numberPrefix, List.nil_append, hminus, hplus, or_self, if_false, List.drop_zero,
      Nat.zero_add, h.takeWhile, List.take_left]
  · simp only [numberPrefix, List.singleton_append, List.head?_cons, true_or, if_true,
      List.drop_succ_cons, List.drop_zero, h.takeWhile, Nat.add_comm 1, List.take_succ_cons,
      List.take_left]
  · simp only [numberPrefix, List.singleton_append, List.head?_cons, or_true, if_true,
      List.drop_succ_cons, List.drop_zero, h.takeWhile, Nat.add_comm 1, List.take_succ_cons,
      List.take_left]

theorem Numeral.stol_eq (h : Numeral sign digits rest) :
    stol (sign ++ digits) =
      if digits = [] then .error .invalidArgument
      else if -(2 ^ 63) ≤ signedValue sign digits ∧ signedValue sign digits < 2 ^ 63 then
        .ok (signedValue sign digits)
      else .error .outOfRange := by
  have hall : digits.takeWhile isDigit = digits := List.takeWhile_eq_self_iff.mpr h.digits
  have hminus := head?_ne_of_digits h.digits (by decide : isDigit (ofChar '-') = false)
  have hplus := head?_ne_of_digits h.digits (by decide : isDigit (ofChar '+') = false)
  obtain rfl | rfl | rfl := h.sign
  · simp [stol, signedValue, hall, hminus, hplus]
  · simp [stol, signedValue, hall]
  · have hne : ofChar '+' ≠ ofChar '-' := by decide
    simp [stol, signedValue, hall, hne]

/-- The text starts with a sign and no digit behind it, or with a number that is
no `long`. -/
def Unreadable (t : Text) : Prop :=
  ∃ sign digits rest, Numeral sign digits rest ∧ t = sign ++ (digits ++ rest) ∧
    (sign ≠ [] ∧ digits = [] ∨
      digits ≠ [] ∧ (signedValue sign digits < -(2 ^ 63) ∨ 2 ^ 63 ≤ signedValue sign digits))

theorem unreadable_iff {t : Text} :
    Unreadable t ↔ numberPrefix t ≠ [] ∧ ∃ err, stol (numberPrefix t) = .error err := by
  constructor
  · rintro ⟨sign, digits, rest, h, rfl, ⟨hsign, rfl⟩ | ⟨hdigits, hrange⟩⟩
    · have hne : sign ++ [] ≠ [] := by simpa using hsign
      rw [h.numberPrefix_eq hne, h.stol_eq, if_pos rfl]
      exact ⟨hne, _, rfl⟩
    · have hne : sign ++ digits ≠ [] := List.append_ne_nil_of_right_ne_nil _ hdigits
      rw [h.numberPrefix_eq hne, h.stol_eq, if_neg hdigits, if_neg (by omega)]
      exact ⟨hne, _, rfl⟩
  · rintro ⟨hnumber, err, herr⟩
    obtain ⟨sign, digits, rest, h, rfl, hnil⟩ := exists_numeral t
    have hne : sign ++ digits ≠ [] := fun hempty => hnumber (hnil hempty)
    rw [h.numberPrefix_eq hne, h.stol_eq] at herr
    refine ⟨sign, digits, rest, h, rfl, ?_⟩
    by_cases hdigits : digits = []
    · rw [hdigits, List.append_nil] at hne
      exact Or.inl ⟨hne, hdigits⟩
    · rw [if_neg hdigits] at herr
      split at herr
      · cases herr
      · exact Or.inr ⟨hdigits, by omega⟩

end Numerals

/-- A printed number that something else follows. -/
theorem numeral_decimal (z : Int) {c : BitVec 8} (hc : isDigit c = false) (u : Text) :
    Numeral (if z < 0 then [ofChar '-'] else []) (decimalNat z.natAbs) (c :: u) := by
  refine ⟨?_, fun d hd => isDigit_of_mem_decimalNat hd, fun d hd => ?_⟩
  · split
    · exact Or.inr (Or.inl rfl)
    · exact Or.inl rfl
  · obtain rfl := Option.some.inj hd
    exact hc

theorem numberPrefix_decimal (z : Int) {c : BitVec 8} (hc : isDigit c = false) (u : Text) :
    numberPrefix (decimal z ++ c :: u) = decimal z := by
  have hne := decimal_ne_nil z
  rw [decimal_cases] at hne ⊢
  rw [List.append_assoc]
  exact (numeral_decimal z hc u).numberPrefix_eq hne

theorem stol_decimal {z : Int} (hlo : -(2 ^ 63) ≤ z) (hhi : z < 2 ^ 63) :
    stol (decimal z) = .ok z := by
  have hvalue : signedValue (if z < 0 then [ofChar '-'] else []) (decimalNat z.natAbs) = z := by
    rw [signedValue, digitsValue_decimalNat]
    by_cases hz : z < 0
    · rw [if_pos hz, if_pos rfl]
      omega
    · rw [if_neg hz, if_neg (List.cons_ne_nil _ _).symm]
      omega
  have hnum := @numeral_decimal z (ofChar ',') (by decide) []
  rw [decimal_cases, hnum.stol_eq, if_neg (decimalNat_ne_nil _), hvalue, if_pos ⟨hlo, hhi⟩]

/-! ### Lines -/

/-- The lines `std::getline` reads: what stands before each newline, and a
last unterminated piece if there is one. -/
def getLines : Text → List Text
  | [] => []
  | c :: t =>
      if c = newline then [] :: getLines t
      else
        match getLines t with
        | [] => [[c]]
        | l :: ls => (c :: l) :: ls

theorem getLines_line {l : Text} (h : newline ∉ l) (t : Text) :
    getLines (l ++ newline :: t) = l :: getLines t := by
  induction l with
  | nil => simp [getLines]
  | cons c l ih =>
      simp only [List.mem_cons, not_or] at h
      rw [List.cons_append, getLines, if_neg (Ne.symm h.1), ih h.2]

theorem getLines_flatMap {β : Type} (f : β → Text) (hf : ∀ b, newline ∉ f b) (bs : List β) :
    getLines (bs.flatMap fun b => f b ++ [newline]) = bs.map f := by
  induction bs with
  | nil => rfl
  | cons b bs ih =>
      rw [List.flatMap_cons, List.append_assoc, List.singleton_append, getLines_line (hf b), ih]
      rfl

/-- The lines and a piece of a further one. -/
theorem getLines_torn {β : Type} (f : β → Text) (hf : ∀ b, newline ∉ f b) (bs : List β) {t : Text}
    (ht : newline ∉ t) :
    getLines ((bs.flatMap fun b => f b ++ [newline]) ++ t) =
      bs.map f ++ if t = [] then [] else [t] := by
  induction bs with
  | nil =>
      rw [List.flatMap_nil, List.nil_append, List.map_nil, List.nil_append]
      induction t with
      | nil => rfl
      | cons c t ih =>
          simp only [List.mem_cons, not_or] at ht
          rw [getLines, if_neg (Ne.symm ht.1), ih ht.2, if_neg (List.cons_ne_nil c t)]
          cases t <;> rfl
  | cons b bs ih =>
      rw [List.flatMap_cons, List.append_assoc, List.append_assoc, List.singleton_append,
        getLines_line (hf b), ih]
      rfl

/-- A file of lines that ends anywhere has whole lines and a piece of the next. -/
theorem exists_torn {β : Type} (f : β → Text) (hf : ∀ b, newline ∉ f b) {bs : List β} {cut : Text}
    (h : cut <+: bs.flatMap fun b => f b ++ [newline]) :
    ∃ k t, cut = ((bs.take k).flatMap fun b => f b ++ [newline]) ++ t ∧ newline ∉ t ∧
      (t = [] ∨ ∃ b, bs[k]? = some b ∧ t <+: f b) := by
  induction bs generalizing cut with
  | nil => exact ⟨0, [], List.prefix_nil.mp h, List.not_mem_nil, Or.inl rfl⟩
  | cons b bs ih =>
      rw [List.flatMap_cons] at h
      obtain hshort | hlong := List.prefix_or_prefix_of_prefix h (List.prefix_append _ _)
      · obtain hwhole | hshort := List.prefix_concat_iff.mp hshort
        · refine ⟨1, [], ?_, List.not_mem_nil, Or.inl rfl⟩
          rw [hwhole, List.take_succ_cons, List.take_zero, List.flatMap_singleton, List.append_nil]
        · refine ⟨0, cut, rfl, fun hmem => hf b (hshort.subset hmem), Or.inr ⟨b, rfl, hshort⟩⟩
      · obtain ⟨cut, rfl⟩ := hlong
        obtain ⟨k, t, hcut, ht, htorn⟩ := ih ((List.prefix_append_right_inj _).mp h)
        refine ⟨k + 1, t, ?_, ht, htorn⟩
        rw [List.take_succ_cons, List.flatMap_cons, List.append_assoc _ _ t, ← hcut]

end Text
