import Mathlib.Data.List.Basic

/-!
Order statistics by counting. The `t`-th smallest of some samples has a property
that smaller samples inherit if and only if at least `t` of them have it. For
samples that are sorted into buckets in their own order, the bucket in which the
running count first reaches `t` is therefore the bucket of the `t`-th smallest.
-/

namespace Rank

variable {α : Type}

/-- In a sorted list the samples that have an inherited property come first. -/
theorem succ_le_countP_iff {r : α → α → Prop} {p : α → Bool}
    (hp : ∀ a b, r a b → p b = true → p a = true) {sorted : List α} (hsorted : sorted.Pairwise r)
    {t : Nat} {v : α} (hv : sorted[t]? = some v) : t + 1 ≤ sorted.countP p ↔ p v = true := by
  induction sorted generalizing t with
  | nil => cases hv
  | cons a sorted ih =>
      obtain ⟨hfirst, hrest⟩ := List.pairwise_cons.mp hsorted
      by_cases ha : p a = true
      · rw [List.countP_cons_of_pos ha]
        cases t with
        | zero =>
            obtain rfl : a = v := Option.some.inj hv
            exact iff_of_true (by omega) ha
        | succ t =>
            rw [Nat.add_le_add_iff_right]
            exact ih hrest hv
      · have hnone : ∀ b ∈ sorted, ¬ p b = true := fun b hb hpb => ha (hp a b (hfirst b hb) hpb)
        have hcount : (a :: sorted).countP p = 0 := by
          rw [List.countP_cons_of_neg ha, List.countP_eq_zero.mpr hnone]
        rw [hcount]
        refine iff_of_false (by omega) ?_
        obtain rfl | hmem := List.mem_cons.mp (List.mem_of_getElem? hv)
        · exact ha
        · exact hnone v hmem

/-! ### Buckets -/

section Buckets
variable (bucket : α → Nat)

/-- The number of samples in the buckets below `s`. -/
def below (samples : List α) (s : Nat) : Nat := samples.countP fun v => bucket v < s

theorem below_succ (samples : List α) (s : Nat) :
    below bucket samples (s + 1) =
      below bucket samples s + samples.countP fun v => bucket v = s := by
  induction samples with
  | nil => rfl
  | cons v samples ih =>
      simp only [below, List.countP_cons, decide_eq_true_eq] at ih ⊢
      split_ifs <;> omega

theorem below_all {samples : List α} {s : Nat} (h : ∀ v ∈ samples, bucket v < s) :
    below bucket samples s = samples.length :=
  List.countP_eq_length.mpr fun v hv => by simpa using h v hv

theorem below_le_length (samples : List α) (s : Nat) :
    below bucket samples s ≤ samples.length := List.countP_le_length

variable {bucket}

/-- More than `t` samples lie below a bucket if and only if the sample of rank `t`
does. -/
theorem succ_le_below_iff {r : α → α → Prop} (hmono : ∀ a b, r a b → bucket a ≤ bucket b)
    {samples sorted : List α} (hperm : sorted.Perm samples) (hsorted : sorted.Pairwise r)
    {t : Nat} {v : α} (hv : sorted[t]? = some v) (s : Nat) :
    t + 1 ≤ below bucket samples s ↔ bucket v < s := by
  rw [below, ← hperm.countP_eq]
  refine (succ_le_countP_iff (fun a b hab hb => ?_) hsorted hv).trans decide_eq_true_iff
  have hb := of_decide_eq_true hb
  exact decide_eq_true (Nat.lt_of_le_of_lt (hmono a b hab) hb)

end Buckets

end Rank
