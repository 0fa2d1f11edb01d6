import Mathlib.Data.List.Basic
import Mathlib.Logic.Function.Iterate

/-!
Reflected CRC registers of any width and polynomial. A shift is linear over
exclusive or, it is injective when the top bit of the polynomial is set, and it
undoes a left shift that loses no bit. What a change of the data does to the
register follows from these three.
-/

namespace Crc

variable {w v : Nat}

/-- One shift of the register. -/
def shift (poly x : BitVec w) : BitVec w :=
  (x >>> 1) ^^^ (if x.getLsbD 0 then poly else 0#w)

/-- Words of `v` bits are read one after the other, `v` shifts for each. -/
def absorb (poly : BitVec w) (reg : BitVec w) (data : List (BitVec v)) : BitVec w :=
  data.foldl (fun reg x => (shift poly)^[v] (reg ^^^ x.setWidth w)) reg

section Shift
variable (poly : BitVec w)

theorem shift_zero : shift poly 0#w = 0#w := by
  simp [shift]

theorem shift_xor (x y : BitVec w) : shift poly (x ^^^ y) = shift poly x ^^^ shift poly y := by
  simp only [shift, BitVec.ushiftRight_xor_distrib, BitVec.getLsbD_xor]
  cases x.getLsbD 0 <;> cases y.getLsbD 0
  · simp
  · simp [BitVec.xor_assoc]
  · simp only [if_true, Bool.xor_false]
    rw [if_neg Bool.false_ne_true, BitVec.xor_zero]
    ac_rfl
  · have hpoly : ∀ a b : BitVec w, a ^^^ poly ^^^ (b ^^^ poly) = a ^^^ b := by
      intro a b
      rw [BitVec.xor_assoc, BitVec.xor_comm b, ← BitVec.xor_assoc poly, BitVec.xor_self,
        BitVec.zero_xor]
    simp [hpoly]

theorem iterate_shift_zero (n : Nat) : (shift poly)^[n] 0#w = 0#w :=
  Function.iterate_fixed (shift_zero poly) n

theorem iterate_shift_xor (n : Nat) (x y : BitVec w) :
    (shift poly)^[n] (x ^^^ y) = (shift poly)^[n] x ^^^ (shift poly)^[n] y := by
  induction n generalizing x y with
  | zero => rfl
  | succ n ih => simp only [Function.iterate_succ_apply, shift_xor, ih]

/-- A shift undoes a left shift that loses no bit. -/
theorem shift_shiftLeft {x : BitVec w} (h : x.msb = false) : shift poly (x <<< 1) = x := by
  have hlow : (x <<< 1).getLsbD 0 = false := by simp
  rw [shift, hlow, if_neg Bool.false_ne_true, BitVec.xor_zero]
  ext i hi
  rw [BitVec.msb_eq_getLsbD_last] at h
  simp only [BitVec.getElem_ushiftRight, BitVec.getLsbD_shiftLeft]
  by_cases hlast : 1 + i < w
  · simp [hlast, BitVec.getLsbD_eq_getElem hi]
  · obtain rfl : i = w - 1 := by omega
    simp [hlast, ← BitVec.getLsbD_eq_getElem hi, h]

theorem shift_injective (hpoly : poly.msb = true) {x : BitVec w} (h : shift poly x = 0#w) :
    x = 0#w := by
  have hlow : x.getLsbD 0 = false := by
    by_contra hlow
    have hmsb := congrArg BitVec.msb h
    simp only [Bool.not_eq_false] at hlow
    simp [shift, hlow, BitVec.msb_xor, hpoly, BitVec.msb_ushiftRight] at hmsb
  rw [shift, hlow, if_neg Bool.false_ne_true, BitVec.xor_zero] at h
  ext i hi
  rw [BitVec.getElem_zero, ← BitVec.getLsbD_eq_getElem]
  cases i with
  | zero => exact hlow
  | succ i =>
      have hbit := congrArg (fun y => y.getLsbD i) h
      simpa [Nat.add_comm 1] using hbit

theorem iterate_shift_injective (hpoly : poly.msb = true) {n : Nat} {x : BitVec w}
    (h : (shift poly)^[n] x = 0#w) : x = 0#w := by
  induction n generalizing x with
  | zero => exact h
  | succ n ih => exact shift_injective poly hpoly (ih h)

/-- `n` shifts undo a left shift by `n` when the top `n` bits are clear. -/
theorem iterate_shift_shiftLeft {n : Nat} {x : BitVec w}
    (h : ∀ i, w ≤ i + n → x.getLsbD i = false) : (shift poly)^[n] (x <<< n) = x := by
  induction n with
  | zero => simp
  | succ n ih =>
      have hmsb : (x <<< n).msb = false := by
        rw [BitVec.msb_eq_getLsbD_last, BitVec.getLsbD_shiftLeft]
        by_cases hn : w - 1 < n
        · simp [hn]
        · rw [h (w - 1 - n) (by omega), Bool.and_false]
      rw [Function.iterate_succ_apply, BitVec.shiftLeft_add, shift_shiftLeft poly hmsb]
      exact ih fun i hi => h i (by omega)

/-- Every bit of the register comes from the top one. -/
theorem iterate_shift_twoPow {b : Nat} (hb : b < w) :
    (shift poly)^[w - 1 - b] (BitVec.twoPow w (w - 1)) = BitVec.twoPow w b := by
  have htop : BitVec.twoPow w (w - 1) = BitVec.twoPow w b <<< (w - 1 - b) := by
    rw [BitVec.twoPow_eq w b, ← BitVec.shiftLeft_add, Nat.add_sub_cancel' (by omega),
      BitVec.twoPow_eq]
  rw [htop, iterate_shift_shiftLeft]
  intro i hi
  have hne : b ≠ i := by omega
  rw [BitVec.getLsbD_twoPow, decide_eq_false hne, Bool.and_false]

/-- The register does not pass `t` within the next `n` shifts. -/
def avoids (t : BitVec w) : Nat → BitVec w → Bool
  | 0, _ => true
  | n + 1, x =>
      let y := shift poly x
      if y = t then false else avoids t n y

theorem iterate_ne_of_avoids {t x : BitVec w} {n k : Nat} (h : avoids poly t n x = true)
    (hpos : 0 < k) (hk : k ≤ n) : (shift poly)^[k] x ≠ t := by
  induction n generalizing x k with
  | zero => omega
  | succ n ih =>
      simp only [avoids] at h
      split at h
      · cases h
      rename_i hne
      obtain _ | _ | k := k
      · omega
      · exact hne
      · rw [Function.iterate_succ_apply]
        exact ih h (Nat.succ_pos k) (Nat.le_of_succ_le_succ hk)

/-- Two places of an orbit that does not come back to its start differ. -/
theorem iterate_xor_ne_zero (hpoly : poly.msb = true) {x : BitVec w} {n : Nat}
    (h : avoids poly x n x = true) {i j : Nat} (hi : i ≤ n) (hj : j ≤ n) (hne : i ≠ j) :
    (shift poly)^[i] x ^^^ (shift poly)^[j] x ≠ 0#w := by
  wlog hlt : j < i generalizing i j
  · rw [BitVec.xor_comm]
    exact this hj hi hne.symm (by omega)
  intro hzero
  have hsplit : (shift poly)^[i] x = (shift poly)^[j] ((shift poly)^[i - j] x) := by
    rw [← Function.iterate_add_apply, Nat.add_sub_cancel' (Nat.le_of_lt hlt)]
  rw [hsplit, ← iterate_shift_xor] at hzero
  have hback := iterate_shift_injective poly hpoly hzero
  exact iterate_ne_of_avoids poly h (by omega) (by omega) (BitVec.xor_eq_zero_iff.mp hback)

end Shift

section Absorb
variable (poly : BitVec w)

/-- A difference in the register is shifted along with the data. -/
theorem absorb_xor_left (reg d : BitVec w) (data : List (BitVec v)) :
    absorb poly (reg ^^^ d) data =
      absorb poly reg data ^^^ (shift poly)^[v * data.length] d := by
  induction data generalizing reg d with
  | nil => rfl
  | cons x data ih =>
      have hswap : reg ^^^ d ^^^ x.setWidth w = (reg ^^^ x.setWidth w) ^^^ d := by ac_rfl
      simp only [absorb, List.foldl_cons] at ih ⊢
      rw [hswap, iterate_shift_xor, ih, List.length_cons, Nat.mul_succ,
        Function.iterate_add_apply]

/-- A change of one word of the data. -/
theorem absorb_modify (reg : BitVec w) {data : List (BitVec v)} {j : Nat}
    (hj : j < data.length) (x : BitVec v) :
    absorb poly reg (data.modify j (· ^^^ x)) =
      absorb poly reg data ^^^ (shift poly)^[v * (data.length - j)] (x.setWidth w) := by
  induction data generalizing reg j with
  | nil => simp at hj
  | cons y data ih =>
      cases j with
      | zero =>
          have hword : reg ^^^ (y ^^^ x).setWidth w = (reg ^^^ y.setWidth w) ^^^ x.setWidth w := by
            rw [BitVec.setWidth_xor, BitVec.xor_assoc]
          have hleft := absorb_xor_left poly ((shift poly)^[v] (reg ^^^ y.setWidth w))
            ((shift poly)^[v] (x.setWidth w)) data
          rw [List.modify_zero_cons, List.length_cons, Nat.sub_zero, Nat.mul_succ,
            Function.iterate_add_apply]
          simp only [absorb, List.foldl_cons] at hleft ⊢
          rw [hword, iterate_shift_xor, hleft]
      | succ j =>
          rw [List.length_cons] at hj
          rw [List.modify_succ_cons, List.length_cons, Nat.add_sub_add_right]
          exact ih _ (Nat.lt_of_succ_lt_succ hj)

end Absorb

end Crc
