import Mathlib.Algebra.BigOperators.Group.List.Basic
import Mathlib.Data.BitVec
import SafetyCopro.Ebpf.SafetyTrace
import SafetyCopro.Lib.Rank

/-!
The histograms of the tracing tool: what `hist_record` of
`ebpf/safety_trace.bpf.c` counts on each CPU, how `ebpf/safety_trace_user.c`
sums the CPUs up, and the percentile it reads off the sum. As long as a count
fits in its 64 bits, a histogram says the same of its samples in whatever order
and on whatever CPU they were recorded.
-/

namespace SafetyCopro

/-! ### The source -/

/-- A histogram that `hist_record` has filled. -/
def histOf (samples : List U64) : Hist := samples.foldl histRecord {}

/-- One turn of the loop of `sum_percpu_hist`, with `have_min`. -/
def sumPercpuTurn (acc : Hist × Bool) (per : Hist) : Hist × Bool :=
  let (out, haveMin) := acc
  let out := { out with
    count := out.count + per.count
    sum := out.sum + per.sum
    slots := List.zipWith (· + ·) out.slots per.slots }
  if per.count = 0 then (out, haveMin)
  else
    let (out, haveMin) :=
      if haveMin = false ∨ per.min < out.min then ({ out with min := per.min }, true)
      else (out, haveMin)
    ({ out with max := if per.max > out.max then per.max else out.max }, haveMin)

/-- `sum_percpu_hist` over the histograms the map lookup brought, if it did. -/
def sumPercpuHist : Option (List Hist) → Hist
  | none => {}
  | some per => (per.foldl sumPercpuTurn ({}, false)).1

/-! ### The slot of a sample -/

theorem log2_shift {n k : Nat} (h : 2 ^ k ≤ n) : (n / 2 ^ k).log2 + k = n.log2 := by
  have hpow : 0 < 2 ^ k := Nat.two_pow_pos k
  have hn : n ≠ 0 := by omega
  have hq : n / 2 ^ k ≠ 0 := Nat.ne_of_gt (Nat.div_pos h hpow)
  obtain ⟨hlow, hhigh⟩ := (Nat.log2_eq_iff hq).mp rfl
  refine ((Nat.log2_eq_iff hn).mpr ⟨?_, ?_⟩).symm
  · rw [Nat.pow_add]
    exact (Nat.le_div_iff_mul_le hpow).mp hlow
  · rw [Nat.add_right_comm, Nat.pow_add]
    exact (Nat.div_lt_iff_lt_mul hpow).mp hhigh

/-- One comparison of `log2_u64`: it halves the width and keeps the logarithm. -/
theorem log2_stage {k : Nat} {bound : U64} (hbound : bound.toNat = 2 ^ k) {v : U64} (r : Nat)
    (hv : v.toNat < 2 ^ (k + k)) :
    ∃ v' r', (if v ≥ bound then (v >>> k, r + k) else (v, r)) = (v', r') ∧
      v'.toNat < 2 ^ k ∧ r' + v'.toNat.log2 = r + v.toNat.log2 := by
  split
  · rename_i hge
    have hge : 2 ^ k ≤ v.toNat := by
      rw [← hbound]
      exact BitVec.le_def.mp hge
    have hlog := log2_shift hge
    refine ⟨_, _, rfl, ?_, ?_⟩
    · rw [BitVec.toNat_ushiftRight, Nat.shiftRight_eq_div_pow,
        Nat.div_lt_iff_lt_mul (Nat.two_pow_pos k), ← Nat.pow_add]
      exact hv
    · rw [BitVec.toNat_ushiftRight, Nat.shiftRight_eq_div_pow]
      omega
  · rename_i hlt
    refine ⟨v, r, rfl, ?_, rfl⟩
    rw [← hbound]
    exact BitVec.lt_def.mp (BitVec.not_le.mp hlt)

theorem log2U64_eq (v : U64) : log2U64 v = v.toNat.log2 := by
  obtain ⟨v1, r1, hp1, hlt, h32⟩ := @log2_stage 32 0x100000000 rfl v 0 v.isLt
  obtain ⟨v2, r2, hp2, hlt, h16⟩ := @log2_stage 16 0x10000 rfl v1 r1 hlt
  obtain ⟨v3, r3, hp3, hlt, h8⟩ := @log2_stage 8 0x100 rfl v2 r2 hlt
  obtain ⟨v4, r4, hp4, hlt, h4⟩ := @log2_stage 4 0x10 rfl v3 r3 hlt
  obtain ⟨v5, r5, hp5, hlt, h2⟩ := @log2_stage 2 0x4 rfl v4 r4 hlt
  obtain ⟨v6, r6, hp6, hlt, h1⟩ := @log2_stage 1 0x2 rfl v5 r5 hlt
  rw [Nat.zero_add] at hp1
  simp only [log2U64, hp1, hp2, hp3, hp4, hp5]
  have hlast : (if v5 ≥ 0x2 then r5 + 1 else r5) = r6 :=
    (apply_ite Prod.snd _ _ _).symm.trans (congrArg Prod.snd hp6)
  have hbit : v6.toNat.log2 = 0 := by
    rw [Nat.log2_def, if_neg (by omega)]
  omega

/-- A sample is counted in the slot of its highest bit, and zero in the first. -/
theorem log2U64_slot (v : U64) :
    log2U64 v < maxSlots ∧ v.toNat < 2 ^ (log2U64 v + 1) ∧
      (v ≠ 0 → 2 ^ log2U64 v ≤ v.toNat) ∧ (v = 0 → log2U64 v = 0) := by
  rw [log2U64_eq]
  refine ⟨?_, Nat.lt_log2_self, fun hv => ?_, fun hv => ?_⟩
  · by_cases hv : v.toNat = 0
    · rw [hv]
      decide
    · exact (Nat.log2_lt hv).mpr v.isLt
  · exact Nat.log2_self_le fun hzero => hv (BitVec.eq_of_toNat_eq hzero)
  · rw [hv]
    rfl

theorem log2U64_mono {v w : U64} (h : v ≤ w) : log2U64 v ≤ log2U64 w := by
  have hle := BitVec.le_def.mp h
  rw [log2U64_eq, log2U64_eq]
  by_cases hv : v.toNat = 0
  · rw [hv]
    exact Nat.zero_le _
  · exact (Nat.le_log2 (by omega)).mpr (Nat.le_trans (Nat.log2_self_le hv) hle)

theorem histRecord_slot (delta : U64) :
    (if log2U64 delta ≥ maxSlots then maxSlots - 1 else log2U64 delta) = log2U64 delta :=
  if_neg (Nat.not_le.mpr (log2U64_slot delta).1)

/-! ### What a histogram says of its samples -/

/-- The least of the samples by `r`, or zero if there is none. -/
structure Extreme (r : U64 → U64 → Prop) (samples : List U64) (m : U64) : Prop where
  empty : samples = [] → m = 0
  mem : samples ≠ [] → m ∈ samples
  bound : ∀ v ∈ samples, r m v

namespace Extreme
variable {r : U64 → U64 → Prop} {samples samples' : List U64} {m m' : U64}

theorem nil (r : U64 → U64 → Prop) : Extreme r [] 0 where
  empty _ := rfl
  mem h := absurd rfl h
  bound := List.forall_mem_nil _

theorem singleton (hrefl : ∀ v, r v v) (v : U64) : Extreme r [v] v where
  empty h := absurd h (List.cons_ne_nil v [])
  mem _ := List.mem_singleton.mpr rfl
  bound := List.forall_mem_singleton.mpr (hrefl v)

theorem perm (h : Extreme r samples m) (hperm : samples.Perm samples') :
    Extreme r samples' m where
  empty hnil := h.empty (hperm.trans (hnil ▸ .refl _)).eq_nil
  mem hne := hperm.mem_iff.mp (h.mem fun hnil => hne (hnil ▸ hperm).nil_eq.symm)
  bound v hv := h.bound v (hperm.mem_iff.mpr hv)

theorem unique (hr : ∀ a b, r a b → r b a → a = b) (h : Extreme r samples m)
    (h' : Extreme r samples m') : m = m' := by
  by_cases hnil : samples = []
  · rw [h.empty hnil, h'.empty hnil]
  · exact hr m m' (h.bound m' (h'.mem hnil)) (h'.bound m (h.mem hnil))

/-- The extreme of the second list is that of both. -/
theorem append_right (htrans : ∀ a b c, r a b → r b c → r a c) (h : Extreme r samples m)
    (h' : Extreme r samples' m') (hne : samples' ≠ []) (hle : samples ≠ [] → r m' m) :
    Extreme r (samples ++ samples') m' where
  empty hnil := absurd (List.append_eq_nil_iff.mp hnil).2 hne
  mem _ := List.mem_append_right _ (h'.mem hne)
  bound v hv := by
    obtain hv | hv := List.mem_append.mp hv
    · exact htrans m' m v (hle (List.ne_nil_of_mem hv)) (h.bound v hv)
    · exact h'.bound v hv

/-- The extreme of the first list is that of both. -/
theorem append_left (htrans : ∀ a b c, r a b → r b c → r a c) (h : Extreme r samples m)
    (h' : Extreme r samples' m') (hne : samples ≠ []) (hle : r m m') :
    Extreme r (samples ++ samples') m where
  empty hnil := absurd (List.append_eq_nil_iff.mp hnil).1 hne
  mem _ := List.mem_append_left _ (h.mem hne)
  bound v hv := by
    obtain hv | hv := List.mem_append.mp hv
    · exact h.bound v hv
    · exact htrans m m' v hle (h'.bound v hv)

end Extreme

/-- What a histogram says of samples it was filled with, in any order. -/
structure Summarizes (samples : List U64) (h : Hist) : Prop where
  slots : h.slots = (List.range maxSlots).map fun s =>
    BitVec.ofNat 64 (samples.countP fun v => log2U64 v = s)
  count : h.count = BitVec.ofNat 64 samples.length
  sum : h.sum = samples.sum
  min : Extreme (· ≤ ·) samples h.min
  max : Extreme (· ≥ ·) samples h.max

namespace Summarizes
variable {samples samples' : List U64} {h h' : Hist}

theorem unique (hs : Summarizes samples h) (hs' : Summarizes samples h') : h = h' := by
  have hmin := Extreme.unique (fun _ _ => BitVec.le_antisymm) hs.min hs'.min
  have hmax := Extreme.unique (fun _ _ hge hle => BitVec.le_antisymm hle hge) hs.max hs'.max
  have hslots := hs.slots.trans hs'.slots.symm
  have hcount := hs.count.trans hs'.count.symm
  have hsum := hs.sum.trans hs'.sum.symm
  cases h
  cases h'
  simp only at hmin hmax hslots hcount hsum
  subst hmin hmax hslots hcount hsum
  rfl

theorem perm (hs : Summarizes samples h) (hperm : samples.Perm samples') :
    Summarizes samples' h where
  slots := by simpa only [hperm.countP_eq] using hs.slots
  count := by rw [hs.count, hperm.length_eq]
  sum := by rw [hs.sum, hperm.sum_eq]
  min := hs.min.perm hperm
  max := hs.max.perm hperm

theorem empty : Summarizes [] {} where
  slots := by decide
  count := rfl
  sum := rfl
  min := .nil _
  max := .nil _

/-- The count says whether there are samples, as long as it fits. -/
theorem count_eq_zero (hs : Summarizes samples h) (hlen : samples.length < 2 ^ 64) :
    h.count = 0 ↔ samples = [] := by
  rw [hs.count, ← List.length_eq_zero_iff, ← BitVec.toNat_inj, BitVec.toNat_ofNat,
    Nat.mod_eq_of_lt hlen]
  rfl

theorem le_trans_u64 (a b c : U64) (hab : a ≤ b) (hbc : b ≤ c) : a ≤ c := BitVec.le_trans hab hbc

theorem ge_trans_u64 (a b c : U64) (hab : a ≥ b) (hbc : b ≥ c) : a ≥ c := BitVec.le_trans hbc hab

/-- The comparisons of both loops: the lesser, or the new one if it is the first. -/
theorem min_append (hs : Extreme (· ≤ ·) samples h.min) {m : U64} (hm : Extreme (· ≤ ·) samples' m)
    (hne : samples' ≠ []) {first : Prop} [Decidable first] (hfirst : first ↔ samples = []) :
    Extreme (· ≤ ·) (samples ++ samples') (if first ∨ m < h.min then m else h.min) := by
  split
  · rename_i hnew
    refine .append_right le_trans_u64 hs hm hne fun hsamples => ?_
    exact BitVec.le_of_lt (hnew.resolve_left (mt hfirst.mp hsamples))
  · rename_i hold
    obtain ⟨hnot, hge⟩ := not_or.mp hold
    exact .append_left le_trans_u64 hs hm (mt hfirst.mpr hnot) (BitVec.not_lt.mp hge)

/-- The greater one, where no sample counts as zero. -/
theorem max_append (hs : Extreme (· ≥ ·) samples h.max) {m : U64} (hm : Extreme (· ≥ ·) samples' m)
    (hne : samples' ≠ []) :
    Extreme (· ≥ ·) (samples ++ samples') (if m > h.max then m else h.max) := by
  split
  · rename_i hnew
    exact .append_right ge_trans_u64 hs hm hne fun _ => BitVec.le_of_lt hnew
  · rename_i hold
    have hle : m ≤ h.max := BitVec.not_lt.mp hold
    by_cases hsamples : samples = []
    · have hzero : m = h.max := by
        rw [hs.empty hsamples] at hle ⊢
        exact BitVec.le_antisymm hle (BitVec.le_def.mpr (Nat.zero_le _))
      rw [← hzero]
      exact .append_right ge_trans_u64 hs hm hne fun hnot => absurd hsamples hnot
    · exact .append_left ge_trans_u64 hs hm hsamples hle

theorem record (hs : Summarizes samples h) (hlen : samples.length < 2 ^ 64) (delta : U64) :
    Summarizes (samples ++ [delta]) (histRecord h delta) where
  slots := by
    simp only [histRecord, histRecord_slot, hs.slots]
    refine List.ext_getElem (by simp) fun i hi hi' => ?_
    rw [List.getElem_modify]
    simp only [List.getElem_map, List.getElem_range, List.countP_append, List.countP_singleton,
      decide_eq_true_eq]
    split
    · rw [BitVec.ofNat_add]
      rfl
    · rfl
  count := by
    simp only [histRecord, hs.count, List.length_append, List.length_singleton]
    exact (BitVec.ofNat_add ..).symm
  sum := by
    simp only [histRecord, hs.sum, List.sum_append, List.sum_singleton]
  min := by
    refine min_append hs.min (.singleton BitVec.le_refl delta) (List.cons_ne_nil _ _) ?_
    rw [← hs.count_eq_zero hlen]
    exact add_eq_right
  max := max_append hs.max (.singleton (r := (· ≥ ·)) (fun v => BitVec.le_refl v) delta)
    (List.cons_ne_nil _ _)

end Summarizes

theorem histOf_summarizes {samples : List U64} (hlen : samples.length < 2 ^ 64) :
    Summarizes samples (histOf samples) := by
  have hgen : ∀ (before samples : List U64) (h : Hist), Summarizes before h →
      (before ++ samples).length < 2 ^ 64 →
        Summarizes (before ++ samples) (samples.foldl histRecord h) := by
    intro before samples
    induction samples generalizing before with
    | nil =>
        intro h hs _
        rwa [List.append_nil]
    | cons v samples ih =>
        intro h hs hlen
        rw [List.append_cons] at hlen
        rw [List.append_cons, List.foldl_cons]
        have hbefore : before.length < 2 ^ 64 := by
          simp only [List.length_append] at hlen
          omega
        exact ih (before ++ [v]) (histRecord h v) (hs.record hbefore v) hlen
  exact hgen [] samples {} .empty hlen

/-! ### The sum over the CPUs -/

/-- The fields that are added up, with whatever minimum and maximum belong to both. -/
theorem Summarizes.append {samples samples' : List U64} {out per : Hist}
    (hs : Summarizes samples out) (hper : Summarizes samples' per) {least greatest : U64}
    (hmin : Extreme (· ≤ ·) (samples ++ samples') least)
    (hmax : Extreme (· ≥ ·) (samples ++ samples') greatest) :
    Summarizes (samples ++ samples')
      { slots := List.zipWith (· + ·) out.slots per.slots
        count := out.count + per.count
        sum := out.sum + per.sum
        min := least
        max := greatest } where
  slots := by
    rw [hs.slots, hper.slots, List.zipWith_map, List.zipWith_self]
    refine List.map_congr_left fun s _ => ?_
    rw [List.countP_append, BitVec.ofNat_add]
  count := by rw [hs.count, hper.count, List.length_append, BitVec.ofNat_add]
  sum := by rw [hs.sum, hper.sum, List.sum_append]
  min := hmin
  max := hmax

theorem sumPercpuTurn_summarizes {samples samples' : List U64} {out per : Hist} {haveMin : Bool}
    (hs : Summarizes samples out) (hfirst : haveMin = false ↔ samples = [])
    (hper : Summarizes samples' per) (hlen : samples'.length < 2 ^ 64) :
    Summarizes (samples ++ samples') (sumPercpuTurn (out, haveMin) per).1 ∧
      ((sumPercpuTurn (out, haveMin) per).2 = false ↔ samples ++ samples' = []) := by
  have hcount := hper.count_eq_zero hlen
  by_cases hnone : samples' = []
  · -- a CPU without samples adds zeros
    rw [sumPercpuTurn, if_pos (hcount.mpr hnone)]
    refine ⟨hs.append hper ?_ ?_, ?_⟩
    · rw [hnone, List.append_nil]
      exact hs.min
    · rw [hnone, List.append_nil]
      exact hs.max
    · rw [hnone, List.append_nil]
      exact hfirst
  · rw [sumPercpuTurn, if_neg (mt hcount.mp hnone)]
    have hmin := Summarizes.min_append hs.min hper.min hnone hfirst
    have hmax := Summarizes.max_append hs.max hper.max hnone
    have hall : samples ++ samples' ≠ [] := fun hnil => hnone (List.append_eq_nil_iff.mp hnil).2
    by_cases hnew : haveMin = false ∨ per.min < out.min
    · rw [if_pos hnew] at hmin
      rw [if_pos hnew]
      exact ⟨hs.append hper hmin hmax, iff_of_false (fun h => Bool.noConfusion h) hall⟩
    · rw [if_neg hnew] at hmin
      rw [if_neg hnew]
      exact ⟨hs.append hper hmin hmax, iff_of_false (not_or.mp hnew).1 hall⟩

theorem sumPercpuHist_summarizes {cpus : List (List U64)}
    (hlen : cpus.flatten.length < 2 ^ 64) :
    Summarizes cpus.flatten (sumPercpuHist (some (cpus.map histOf))) := by
  have hgen : ∀ (cpus : List (List U64)) (before : List U64) (acc : Hist × Bool),
      Summarizes before acc.1 → (acc.2 = false ↔ before = []) → cpus.flatten.length < 2 ^ 64 →
        Summarizes (before ++ cpus.flatten) ((cpus.map histOf).foldl sumPercpuTurn acc).1 := by
    intro cpus
    induction cpus with
    | nil =>
        intro before acc hs _ _
        rwa [List.flatten_nil, List.append_nil]
    | cons samples cpus ih =>
        intro before acc hs hfirst hlen
        rw [List.flatten_cons, List.length_append] at hlen
        have hhere : samples.length < 2 ^ 64 := by omega
        have hrest : cpus.flatten.length < 2 ^ 64 := by omega
        obtain ⟨hturn, hflag⟩ :=
          sumPercpuTurn_summarizes hs hfirst (histOf_summarizes hhere) hhere
        rw [List.map_cons, List.foldl_cons, List.flatten_cons, ← List.append_assoc]
        exact ih (before ++ samples) _ hturn hflag hrest
  exact hgen cpus [] ({}, false) .empty (iff_of_true rfl rfl) hlen

/-- The slot a sample belongs in. -/
def InSlot (s : Nat) (v : U64) : Prop :=
  (v = 0 ∧ s = 0) ∨ (0 < v.toNat ∧ 2 ^ s ≤ v.toNat ∧ v.toNat < 2 ^ (s + 1))

instance (s : Nat) (v : U64) : Decidable (InSlot s v) := inferInstanceAs (Decidable (_ ∨ _))

theorem inSlot_iff (s : Nat) (v : U64) : InSlot s v ↔ log2U64 v = s := by
  obtain ⟨-, hlt, hle, hzero⟩ := log2U64_slot v
  by_cases hv : v = 0
  · subst hv
    rw [hzero rfl]
    simp [InSlot, eq_comm]
  · have hne : v.toNat ≠ 0 := fun h => hv (BitVec.eq_of_toNat_eq h)
    rw [log2U64_eq, Nat.log2_eq_iff hne, InSlot]
    refine ⟨fun h => (h.resolve_left fun hand => hv hand.1).2, fun h => Or.inr ⟨by omega, h⟩⟩

theorem sum_countP_slots (samples : List U64) (n : Nat) :
    ((List.range n).map fun s =>
        BitVec.ofNat 64 (samples.countP fun v => log2U64 v = s)).sum =
      BitVec.ofNat 64 (Rank.below log2U64 samples n) := by
  induction n with
  | zero =>
      have hzero : Rank.below log2U64 samples 0 = 0 := List.countP_eq_zero.mpr (by simp)
      rw [hzero]
      rfl
  | succ n ih =>
      rw [List.range_succ, List.map_append, List.sum_append, ih, Rank.below_succ,
        BitVec.ofNat_add, List.map_singleton, List.sum_singleton]

theorem Summarizes.count_eq_sum {samples : List U64} {h : Hist} (hs : Summarizes samples h) :
    h.count = h.slots.sum := by
  rw [hs.slots, sum_countP_slots, hs.count,
    Rank.below_all log2U64 fun v _ => (log2U64_slot v).1]

/-- However fewer than `2 ^ 64` samples are spread over the CPUs, the sum over the
CPUs is the histogram of all of them, which has each sample in its slot. -/
theorem sumPercpuHist_eq_histOf {samples : List U64} {cpus : List (List U64)}
    (hlen : samples.length < 2 ^ 64) (hperm : cpus.flatten.Perm samples) :
    sumPercpuHist (some (cpus.map histOf)) = histOf samples ∧
      (histOf samples).slots = (List.range 64).map
        (fun s => BitVec.ofNat 64 (samples.countP fun v => InSlot s v)) ∧
      (∀ v, ∃ s < 64, ∀ s', InSlot s' v ↔ s' = s) ∧
      (histOf samples).count = BitVec.ofNat 64 samples.length ∧
      (histOf samples).count = (histOf samples).slots.sum := by
  have hall := histOf_summarizes hlen
  have hsum := @sumPercpuHist_summarizes cpus (by rwa [hperm.length_eq])
  refine ⟨(hsum.perm hperm).unique hall, ?_, fun v => ?_, hall.count, hall.count_eq_sum⟩
  · simp only [inSlot_iff]
    exact hall.slots
  · refine ⟨log2U64 v, (log2U64_slot v).1, fun s' => ?_⟩
    rw [inSlot_iff, eq_comm]

/-- Three CPUs, one of them idle, and a sample of zero. -/
theorem sumPercpuHist_eq_three :
    sumPercpuHist (some ([[7, 0], [], [1024]].map histOf)) = histOf [1024, 7, 0] :=
  (@sumPercpuHist_eq_histOf [1024, 7, 0] [[7, 0], [], [1024]] (by decide) (by decide)).1

/-! ### A count that wraps -/

theorem histOf_replicate (v : U64) (n : Nat) :
    (histOf (List.replicate n v)).count = BitVec.ofNat 64 n ∧
      (0 < n → (histOf (List.replicate n v)).max = v) := by
  induction n with
  | zero => exact ⟨rfl, fun h => absurd h (Nat.lt_irrefl 0)⟩
  | succ n ih =>
      obtain ⟨hcount, hmax⟩ := ih
      have hstep : histOf (List.replicate (n + 1) v) =
          histRecord (histOf (List.replicate n v)) v := by
        rw [List.replicate_succ', histOf, List.foldl_append]
        rfl
      rw [hstep]
      refine ⟨?_, fun _ => ?_⟩
      · rw [BitVec.ofNat_add, ← hcount]
        rfl
      · cases n with
        | zero =>
            have hfirst : (histRecord {} v).max = if v > 0 then v else 0 := rfl
            rw [List.replicate_zero]
            refine hfirst.trans ?_
            split
            · rfl
            · rename_i hzero
              exact (BitVec.le_antisymm (BitVec.not_lt.mp hzero)
                (BitVec.le_def.mpr (Nat.zero_le _))).symm
        | succ n =>
            rw [histRecord, hmax (Nat.succ_pos n), ite_self]

/-- A CPU whose count is zero is passed over for the maximum. -/
theorem sumPercpuHist_max_of_count {h : Hist} (hcount : h.count = 0) :
    (sumPercpuHist (some [h])).max = 0 := by
  rw [sumPercpuHist, List.foldl_cons, List.foldl_nil, sumPercpuTurn, if_pos hcount]

/-- A CPU that has recorded `2 ^ 64` samples counts none of them. -/
theorem not_sumPercpuHist_eq_histOf :
    ¬ ∀ (samples : List U64) (cpus : List (List U64)), cpus.flatten.Perm samples →
      sumPercpuHist (some (cpus.map histOf)) = histOf samples := by
  intro h
  obtain ⟨hcount, hmax⟩ := histOf_replicate 5 (2 ^ 64)
  generalize List.replicate (2 ^ 64) (5 : U64) = samples at hcount hmax
  have hsum := congrArg Hist.max (h samples [samples] (by rw [List.flatten_singleton]))
  rw [List.map_singleton, sumPercpuHist_max_of_count (hcount.trans (by decide)),
    hmax (Nat.two_pow_pos 64)] at hsum
  exact absurd hsum (by decide)

end SafetyCopro
