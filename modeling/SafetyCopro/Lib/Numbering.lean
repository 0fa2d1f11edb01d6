import Mathlib.Data.Nat.Count

/-!
Numbering what is put out in groups. A sequence of tokens is put out in pieces,
each for one or more of them, and the pieces are counted. Some tokens are picked
and have a piece of their own; the number of such a piece is the number of
places up to its token at which a piece begins.
-/

namespace Numbering

/-! ### Marked places -/

section Count

variable {p q : Nat → Prop} [DecidablePred p] [DecidablePred q]

/-- Of these places only the first is marked. -/
theorem count_run {i n : Nat} (hfirst : p i) (hrest : ∀ j, j < n → ¬ p (i + (j + 1))) :
    Nat.count p (i + (n + 1)) = Nat.count p i + 1 := by
  induction n with
  | zero => rw [Nat.count_succ, if_pos hfirst, Nat.add_zero]
  | succ n ih =>
      rw [← Nat.add_assoc, Nat.count_succ, if_neg (hrest n (Nat.lt_succ_self n)), Nat.add_zero,
        ih fun j hj => hrest j (Nat.lt_succ_of_lt hj)]

theorem count_congr {n : Nat} (h : ∀ i, i < n → (p i ↔ q i)) : Nat.count p n = Nat.count q n :=
  Nat.le_antisymm (Nat.count_mono_left fun i hi => (h i hi).mp)
    (Nat.count_mono_left fun i hi => (h i hi).mpr)

/-- One more place is marked. -/
theorem count_insert {m n : Nat} (h : ∀ i, p i ↔ q i ∨ i = m) (hm : ¬ q m) :
    Nat.count p n = Nat.count q n + if m < n then 1 else 0 := by
  induction n with
  | zero => rfl
  | succ n ih =>
      rw [Nat.count_succ, Nat.count_succ, ih]
      obtain hlt | rfl | hgt := Nat.lt_trichotomy m n
      · have hn : p n ↔ q n := (h n).trans (or_iff_left (by omega))
        rw [if_pos hlt, if_pos (Nat.lt_succ_of_lt hlt), Nat.add_right_comm, if_congr hn rfl rfl]
      · rw [if_pos ((h m).mpr (.inr rfl)), if_neg hm, if_neg (Nat.lt_irrefl m),
          if_pos (Nat.lt_succ_self m)]
      · have hn : p n ↔ q n := (h n).trans (or_iff_left (by omega))
        have hbefore : ¬ m < n := by omega
        have hbehind : ¬ m < n + 1 := by omega
        rw [if_neg hbefore, if_neg hbehind, Nat.add_right_comm, if_congr hn rfl rfl]

end Count

/-! ### Pieces -/

section Pieces

variable {τ ω : Type} (pick : τ → Option ω) (P : ω → Prop) [DecidablePred P]
variable (p : Nat → Prop) [DecidablePred p]

/-- The picked tokens from the `i`-th on, with the marked places up to each. -/
def numbers (i : Nat) (ts : List τ) : List (ω × Nat) :=
  (ts.zipIdx i).filterMap fun tk => (pick tk.1).map fun o => (o, Nat.count p (tk.2 + 1))

theorem numbers_append (i : Nat) (ts ts' : List τ) :
    numbers pick p i (ts ++ ts') = numbers pick p i ts ++ numbers pick p (i + ts.length) ts' := by
  rw [numbers, List.zipIdx_append, List.filterMap_append]
  rfl

/-- The pieces put out for these tokens: as many as there are marked places, with
the picked ones where they are counted. -/
structure Placed (i : Nat) (ts : List τ) (pieces : List ω) : Prop where
  count : Nat.count p (i + ts.length) = Nat.count p i + pieces.length
  picked : (pieces.zipIdx (Nat.count p i + 1)).filter (fun on => P on.1) = numbers pick p i ts

variable {pick P p} {i : Nat}

theorem Placed.nil : Placed pick P p i [] [] := ⟨rfl, rfl⟩

theorem Placed.append {ts ts' : List τ} {pieces pieces' : List ω}
    (h : Placed pick P p i ts pieces) (h' : Placed pick P p (i + ts.length) ts' pieces') :
    Placed pick P p i (ts ++ ts') (pieces ++ pieces') where
  count := by
    rw [List.length_append, ← Nat.add_assoc, h'.count, h.count, List.length_append, Nat.add_assoc]
  picked := by
    have hpicked := h'.picked
    rw [h.count] at hpicked
    rw [numbers_append, List.zipIdx_append, List.filter_append, h.picked, Nat.add_right_comm,
      hpicked]

/-- A group of tokens none of which is picked, put out as one piece. -/
theorem Placed.group {ts : List τ} {piece : ω} (hts : ∀ t ∈ ts, pick t = none) (hpiece : ¬ P piece)
    (hcount : Nat.count p (i + ts.length) = Nat.count p i + 1) :
    Placed pick P p i ts [piece] where
  count := hcount
  picked := by
    have hnone : numbers pick p i ts = [] := by
      refine List.filterMap_eq_nil_iff.mpr fun tk htk => ?_
      rw [hts tk.1 (List.fst_mem_of_mem_zipIdx htk), Option.map_none]
    rw [hnone]
    exact List.filter_cons_of_neg (by simpa using hpiece)

/-- A picked token. -/
theorem Placed.single {t : τ} {piece : ω} (ht : pick t = some piece) (hpiece : P piece) (hi : p i) :
    Placed pick P p i [t] [piece] where
  count := by rw [List.length_singleton, Nat.count_succ, if_pos hi, List.length_singleton]
  picked := by
    have hone : numbers pick p i [t] = [(piece, Nat.count p (i + 1))] := by
      rw [numbers, List.zipIdx_singleton, List.filterMap_cons, ht]
      rfl
    rw [hone, Nat.count_succ, if_pos hi]
    exact List.filter_cons_of_pos (by simpa using hpiece)

end Pieces

/-- Two readings of one list that pick the same places agree exactly when they
agree place by place. -/
theorem filterMap_eq_iff {α β : Type} {g g' : α → Option β}
    (h : ∀ a, (g a).isSome = (g' a).isSome) (l : List α) :
    l.filterMap g = l.filterMap g' ↔ ∀ a ∈ l, g a = g' a := by
  induction l with
  | nil => exact iff_of_true rfl (List.forall_mem_nil _)
  | cons a l ih =>
      have ha := h a
      rw [List.forall_mem_cons, ← ih]
      cases hg : g a with
      | none =>
          rw [hg] at ha
          have hg' : g' a = none := Option.isNone_iff_eq_none.mp (by simpa using ha.symm)
          rw [List.filterMap_cons_none hg, List.filterMap_cons_none hg', hg']
          exact (and_iff_right rfl).symm
      | some b =>
          rw [hg] at ha
          obtain ⟨b', hg'⟩ := Option.isSome_iff_exists.mp ha.symm
          rw [List.filterMap_cons_some hg, List.filterMap_cons_some hg', hg', List.cons.injEq,
            Option.some.injEq]

end Numbering
