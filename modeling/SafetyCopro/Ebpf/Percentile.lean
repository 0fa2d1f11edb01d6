import SafetyCopro.Ebpf.Histogram

/-!
The percentile of a histogram, `hist_percentile_ns` of
`ebpf/safety_trace_user.c`: the upper bound of the slot in which the running
count reaches the rank. The bound of the last slot would be `2 ^ 64`, and the
shift that computes it is undefined.
-/

namespace SafetyCopro

/-- The loop over the slots: the slot in which the running count reaches the
target, if there is one. -/
def histScan (target : U64) : List U64 → Nat → U64 → Option Nat
  | [], _, _ => none
  | n :: slots, s, cum =>
      let cum := cum + n
      if cum ≥ target then some s else histScan target slots (s + 1) cum

/-- `1ULL << n`, which has no meaning from 64 on. -/
def shiftOne (n : Nat) : Option U64 := if n < 64 then some (1#64 <<< n) else none

/-- What is returned for a slot. -/
def slotBound (s : Nat) : Option U64 := if s = 0 then some 1 else shiftOne (s + 1)

/-- `hist_percentile_ns`, with the target that the percentage comes to. -/
def histPercentileNs (h : Hist) (target : U64) : Option U64 :=
  if h.count = 0 then some 0
  else
    let target := if target = 0 then 1 else target
    match histScan target h.slots 0 0 with
    | some s => slotBound s
    | none => some h.max

/-- The `t`-th smallest of the samples, counted from one. -/
def nthSmallest (samples : List U64) (t : Nat) : Option U64 := samples.mergeSort[t - 1]?

/-! ### The slot of a rank -/

theorem sorted_mergeSort (samples : List U64) : samples.mergeSort.Pairwise (· ≤ ·) := by
  have htrans : ∀ a b c : U64, decide (a ≤ b) = true → decide (b ≤ c) = true →
      decide (a ≤ c) = true := fun a b c hab hbc =>
    decide_eq_true (BitVec.le_trans (of_decide_eq_true hab) (of_decide_eq_true hbc))
  have htotal : ∀ a b : U64, (decide (a ≤ b) || decide (b ≤ a)) = true := fun a b => by
    simpa using BitVec.le_total a b
  exact (List.pairwise_mergeSort htrans htotal samples).imp fun h => of_decide_eq_true h

section Rank
variable {samples : List U64} {t : Nat} {v : U64}

theorem histScan_eq (hlen : samples.length < 2 ^ 64) (hv : samples.mergeSort[t]? = some v)
    {target : U64} (htarget : target.toNat = t + 1) {n s : Nat} (hn : s + n = maxSlots)
    (hs : s ≤ log2U64 v) :
    histScan target
        ((List.range' s n).map fun s => BitVec.ofNat 64 (samples.countP fun v => log2U64 v = s)) s
        (BitVec.ofNat 64 (Rank.below log2U64 samples s)) = some (log2U64 v) := by
  induction n generalizing s with
  | zero =>
      have hlast := (log2U64_slot v).1
      omega
  | succ n ih =>
      have hrank := Rank.succ_le_below_iff (fun a b => @log2U64_mono a b)
        (List.mergeSort_perm samples _) (sorted_mergeSort samples) hv (s + 1)
      have hfits : Rank.below log2U64 samples (s + 1) < 2 ^ 64 :=
        Nat.lt_of_le_of_lt (Rank.below_le_length ..) hlen
      have hreached : BitVec.ofNat 64 (Rank.below log2U64 samples (s + 1)) ≥ target ↔
          log2U64 v < s + 1 := by
        rw [← hrank, ← htarget, ge_iff_le, BitVec.le_def, BitVec.toNat_ofNat,
          Nat.mod_eq_of_lt hfits]
      rw [List.range'_succ, List.map_cons, histScan, ← BitVec.ofNat_add, ← Rank.below_succ]
      by_cases hhere : log2U64 v < s + 1
      · have hslot : s = log2U64 v := by omega
        rw [if_pos (hreached.mpr hhere), hslot]
      · rw [if_neg (mt hreached.mp hhere)]
        exact ih (by omega) (Nat.not_lt.mp hhere)

/-- The rank decides the slot. -/
theorem histPercentileNs_eq (hlen : samples.length < 2 ^ 64) {target : U64} (hpos : 1 ≤ target)
    (hv : nthSmallest samples target.toNat = some v) :
    histPercentileNs (histOf samples) target = slotBound (log2U64 v) := by
  have hall := histOf_summarizes hlen
  have hne : ¬ (histOf samples).count = 0 := by
    rw [hall.count_eq_zero hlen]
    rintro rfl
    rw [nthSmallest, List.mergeSort_nil] at hv
    cases hv
  have hpos : 1 ≤ target.toNat := BitVec.le_def.mp hpos
  have htarget : ¬ target = 0 := by
    rintro rfl
    exact absurd hpos (by decide)
  have hscan : histScan target (histOf samples).slots 0 0 = some (log2U64 v) := by
    have hzero : Rank.below log2U64 samples 0 = 0 := List.countP_eq_zero.mpr (by simp)
    have hrank : target.toNat = target.toNat - 1 + 1 := by omega
    have heq := histScan_eq hlen hv hrank (Nat.zero_add maxSlots) (Nat.zero_le _)
    rwa [hzero, ← List.range_eq_range', ← hall.slots] at heq
  rw [histPercentileNs, if_neg hne]
  simp only [if_neg htarget, hscan]

end Rank

/-! ### The bound of a slot -/

theorem shiftOne_eq_some {n : Nat} {u : U64} : shiftOne n = some u ↔ n < 64 ∧ u.toNat = 2 ^ n := by
  rw [shiftOne]
  by_cases hn : n < 64
  · have hfits : 2 ^ n < 2 ^ 64 := Nat.pow_lt_pow_right (by decide) hn
    have hshift : (1#64 <<< n).toNat = 2 ^ n := by
      rw [BitVec.toNat_shiftLeft, Nat.shiftLeft_eq]
      exact (congrArg (· % 2 ^ 64) (Nat.one_mul _)).trans (Nat.mod_eq_of_lt hfits)
    rw [if_pos hn, Option.some.injEq, ← BitVec.toNat_inj, hshift, eq_comm]
    exact (and_iff_right hn).symm
  · rw [if_neg hn]
    exact iff_of_false (fun h => by cases h) (fun h => hn h.1)

/-- The bound is right, and is at most twice the sample, if it can be computed. -/
theorem slotBound_good (v : U64) :
    (∃ u, slotBound (log2U64 v) = some u ∧ v.toNat ≤ u.toNat ∧
      u.toNat ≤ max 1 (2 * v.toNat)) ↔ v.toNat < 2 ^ 63 := by
  obtain ⟨-, hlt, hle, -⟩ := log2U64_slot v
  by_cases hzero : log2U64 v = 0
  · rw [hzero] at hlt
    have hone : v.toNat ≤ 1 := by omega
    rw [hzero]
    refine iff_of_true ⟨1, rfl, hone, Nat.le_max_left ..⟩ (by omega)
  · have hv : v ≠ 0 := by
      rintro rfl
      exact hzero rfl
    have hle := hle hv
    rw [slotBound, if_neg hzero]
    constructor
    · rintro ⟨u, hu, -, -⟩
      obtain ⟨hslot, -⟩ := shiftOne_eq_some.mp hu
      have hpow : 2 ^ (log2U64 v + 1) ≤ 2 ^ 63 := Nat.pow_le_pow_right (by decide) (by omega)
      omega
    · intro hsmall
      have hslot : log2U64 v + 1 < 64 := by
        by_contra hbig
        have hpow : 2 ^ 63 ≤ 2 ^ log2U64 v := Nat.pow_le_pow_right (by decide) (by omega)
        omega
      have hfits : 2 ^ (log2U64 v + 1) < 2 ^ 64 := Nat.pow_lt_pow_right (by decide) hslot
      refine ⟨BitVec.ofNat 64 (2 ^ (log2U64 v + 1)), shiftOne_eq_some.mpr ⟨hslot, ?_⟩, ?_, ?_⟩
      all_goals rw [BitVec.toNat_ofNat, Nat.mod_eq_of_lt hfits]
      · exact Nat.le_of_lt hlt
      · rw [Nat.pow_succ]
        omega

theorem slotBound_mono {s s' : Nat} (h : s ≤ s') {u u' : U64} (hu : slotBound s = some u)
    (hu' : slotBound s' = some u') : u ≤ u' := by
  rw [BitVec.le_def]
  have hpos : 0 < u'.toNat := by
    rw [slotBound] at hu'
    split at hu'
    · obtain rfl := Option.some.inj hu'
      decide
    · rw [(shiftOne_eq_some.mp hu').2]
      exact Nat.two_pow_pos _
  rw [slotBound] at hu
  split at hu
  · obtain rfl := Option.some.inj hu
    exact hpos
  · rename_i hs
    rw [slotBound, if_neg (by omega)] at hu'
    rw [(shiftOne_eq_some.mp hu).2, (shiftOne_eq_some.mp hu').2]
    exact Nat.pow_le_pow_right (by decide) (by omega)

/-- A percentile is a bound for the sample of its rank, and at most twice as
large, if and only if that sample is below `2 ^ 63`: beyond it the slot has no
bound. The percentiles that are computed are ordered like their ranks. -/
theorem histPercentileNs_bound_iff {samples : List U64} (hlen : samples.length < 2 ^ 64) :
    (∀ t : U64, 1 ≤ t → t ≤ (histOf samples).count →
      ∃ v, nthSmallest samples t.toNat = some v ∧
        ((∃ u, histPercentileNs (histOf samples) t = some u ∧ v.toNat ≤ u.toNat ∧
          u.toNat ≤ max 1 (2 * v.toNat)) ↔ v.toNat < 2 ^ 63)) ∧
    ∀ t t' : U64, 1 ≤ t → t ≤ t' → t' ≤ (histOf samples).count →
      ∀ u u', histPercentileNs (histOf samples) t = some u →
        histPercentileNs (histOf samples) t' = some u' → u ≤ u' := by
  have hcount : (histOf samples).count.toNat = samples.length := by
    rw [(histOf_summarizes hlen).count, BitVec.toNat_ofNat, Nat.mod_eq_of_lt hlen]
  have hsmallest : ∀ t : U64, 1 ≤ t → t ≤ (histOf samples).count →
      ∃ v, nthSmallest samples t.toNat = some v := by
    intro t hpos ht
    have hpos : 1 ≤ t.toNat := BitVec.le_def.mp hpos
    have ht := BitVec.le_def.mp ht
    rw [hcount] at ht
    exact ⟨_, List.getElem?_eq_getElem (by rw [List.length_mergeSort]; omega)⟩
  refine ⟨fun t hpos ht => ?_, fun t t' hpos hle ht' u u' hu hu' => ?_⟩
  · obtain ⟨v, hv⟩ := hsmallest t hpos ht
    rw [histPercentileNs_eq hlen hpos hv]
    exact ⟨v, hv, slotBound_good v⟩
  · have hpos' : 1 ≤ t' := BitVec.le_trans hpos hle
    obtain ⟨v, hv⟩ := hsmallest t hpos (BitVec.le_trans hle ht')
    obtain ⟨v', hv'⟩ := hsmallest t' hpos' ht'
    rw [histPercentileNs_eq hlen hpos hv] at hu
    rw [histPercentileNs_eq hlen hpos' hv'] at hu'
    refine slotBound_mono (log2U64_mono ?_) hu hu'
    obtain ⟨i, rfl⟩ := List.getElem?_eq_some_iff.mp hv
    obtain ⟨i', rfl⟩ := List.getElem?_eq_some_iff.mp hv'
    have hle := BitVec.le_def.mp hle
    obtain heq | hlt : t.toNat - 1 = t'.toNat - 1 ∨ t.toNat - 1 < t'.toNat - 1 := by omega
    · simp only [heq]
      exact BitVec.le_refl _
    · exact List.pairwise_iff_getElem.mp (sorted_mergeSort samples) _ _ _ _ hlt

/-- Two samples, and a rank for each. -/
theorem histPercentileNs_bound_two :
    ∃ v, nthSmallest [1000, 3] 2 = some v ∧ ∃ u, histPercentileNs (histOf [1000, 3]) 2 = some u ∧
      v.toNat ≤ u.toNat ∧ u.toNat ≤ max 1 (2 * v.toNat) := by
  obtain ⟨v, hv, hbound⟩ := (@histPercentileNs_bound_iff [1000, 3] (by decide)).1 2
    (by decide) (by decide)
  have hmem : v ∈ [1000, 3] := List.mem_mergeSort.mp (List.mem_of_getElem? hv)
  have hsmall : ∀ v ∈ [(1000 : U64), 3], v.toNat < 2 ^ 63 := by simp
  exact ⟨v, hv, hbound.mpr (hsmall v hmem)⟩

/-- A time difference of `-1` lies in the last slot. -/
theorem not_histPercentileNs_bound :
    ¬ ∀ (samples : List U64) (t : U64), 1 ≤ t → t ≤ (histOf samples).count →
      ∃ v u, nthSmallest samples t.toNat = some v ∧
        histPercentileNs (histOf samples) t = some u ∧
        v.toNat ≤ u.toNat ∧ u.toNat ≤ max 1 (2 * v.toNat) := by
  intro h
  obtain ⟨v, u, -, hu, -⟩ := h [0xFFFFFFFFFFFFFFFF] 1 (by decide) (by decide)
  have hnone : histPercentileNs (histOf [0xFFFFFFFFFFFFFFFF]) 1 = none := by decide
  rw [hnone] at hu
  cases hu

end SafetyCopro
