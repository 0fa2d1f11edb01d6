import Mathlib.Algebra.CharP.Two
import Mathlib.Algebra.Field.ZMod
import Mathlib.Algebra.Polynomial.Div
import Mathlib.Tactic.LinearCombination
import SafetyCopro.Lib.Crc

/-!
The register of a reflected CRC as a polynomial over GF(2), with its lowest bit
for the highest power. A shift multiplies by `X` modulo the generator, so what
is left in the register when data has been read is the remainder of the preset
register and the message, each moved up.
-/

namespace Crc

open Polynomial

noncomputable section

def coeffBit (b : Bool) : ZMod 2 := if b then 1 else 0

/-- The polynomial of some bits, the first for the highest power. -/
def bitPoly : List Bool → (ZMod 2)[X]
  | [] => 0
  | b :: bits => C (coeffBit b) * X ^ bits.length + bitPoly bits

/-- The bits of a word in the order in which they are sent. -/
def bitsLsb {w : Nat} (x : BitVec w) : List Bool := (List.range w).map fun i => x.getLsbD i

/-- The word of which a polynomial of degree less than `w` has the bits. -/
def ofPoly (w : Nat) (p : (ZMod 2)[X]) : BitVec w :=
  (BitVec.ofBoolListLE ((List.range w).map fun i => decide (p.coeff (w - 1 - i) = 1))).setWidth w

/-- What is left of a message: it is multiplied by `X ^ w`, a register full of ones
is put in front of it, and the whole is divided by the generator. -/
def remainder (w : Nat) (gen : (ZMod 2)[X]) (message : List Bool) : (ZMod 2)[X] :=
  (X ^ w * bitPoly message + X ^ message.length * bitPoly (List.replicate w true)) %ₘ gen

/-! ### Bits -/

theorem coeffBit_xor (a b : Bool) : coeffBit (a ^^ b) = coeffBit a + coeffBit b := by
  cases a <;> cases b <;> decide

theorem coeffBit_eq_one (b : Bool) : coeffBit b = 1 ↔ b = true := by
  cases b <;> decide

theorem length_bitsLsb {w : Nat} (x : BitVec w) : (bitsLsb x).length = w := by
  rw [bitsLsb, List.length_map, List.length_range]

theorem bitPoly_append (bits bits' : List Bool) :
    bitPoly (bits ++ bits') = X ^ bits'.length * bitPoly bits + bitPoly bits' := by
  induction bits with
  | nil => simp [bitPoly]
  | cons b bits ih =>
      rw [List.cons_append, bitPoly, bitPoly, ih, List.length_append, pow_add]
      ring

theorem bitPoly_replicate_false (n : Nat) : bitPoly (List.replicate n false) = 0 := by
  induction n with
  | zero => rfl
  | succ n ih => simp [List.replicate_succ, bitPoly, ih, coeffBit]

theorem bitPoly_map_xor {α : Type} (f g : α → Bool) (l : List α) :
    bitPoly (l.map fun i => f i ^^ g i) = bitPoly (l.map f) + bitPoly (l.map g) := by
  induction l with
  | nil => simp [bitPoly]
  | cons i l ih =>
      simp only [List.map_cons, bitPoly, ih, coeffBit_xor, C_add, List.length_map]
      ring

theorem coeff_bitPoly (bits : List Bool) (k : Nat) :
    (bitPoly bits).coeff k =
      if k < bits.length then coeffBit (bits.getD (bits.length - 1 - k) false) else 0 := by
  induction bits with
  | nil => simp [bitPoly]
  | cons b bits ih =>
      rw [bitPoly, coeff_add, ih, coeff_C_mul_X_pow, List.length_cons, Nat.add_sub_cancel]
      obtain hlt | rfl | hgt := Nat.lt_trichotomy k bits.length
      · have hindex : bits.length - k = bits.length - 1 - k + 1 := by omega
        rw [if_neg (by omega), if_pos hlt, if_pos (by omega), hindex, List.getD_cons_succ, zero_add]
      · rw [if_pos rfl, if_neg (by omega), if_pos (by omega), Nat.sub_self, List.getD_cons_zero,
          add_zero]
      · rw [if_neg (by omega), if_neg (by omega), if_neg (by omega), add_zero]

theorem degree_bitPoly_lt (bits : List Bool) : (bitPoly bits).degree < bits.length := by
  rw [degree_lt_iff_coeff_zero]
  intro k hk
  rw [coeff_bitPoly, if_neg (Nat.not_lt.mpr hk)]

/-! ### Words -/

section Words
variable {w v : Nat}

theorem bitPoly_bitsLsb_xor (x y : BitVec w) :
    bitPoly (bitsLsb (x ^^^ y)) = bitPoly (bitsLsb x) + bitPoly (bitsLsb y) := by
  simp only [bitsLsb, BitVec.getLsbD_xor]
  exact bitPoly_map_xor _ _ _

theorem bitPoly_bitsLsb_zero : bitPoly (bitsLsb (0#w)) = 0 := by
  have hbits : bitsLsb (0#w) = List.replicate w false := by
    simp [bitsLsb]
  rw [hbits, bitPoly_replicate_false]

/-- A narrow word has the highest powers of the register. -/
theorem bitPoly_bitsLsb_setWidth (h : v ≤ w) (x : BitVec v) :
    bitPoly (bitsLsb (x.setWidth w)) = X ^ (w - v) * bitPoly (bitsLsb x) := by
  have hbits : bitsLsb (x.setWidth w) = bitsLsb x ++ List.replicate (w - v) false := by
    obtain ⟨d, rfl⟩ := Nat.exists_eq_add_of_le h
    rw [bitsLsb, List.range_add, List.map_append, Nat.add_sub_cancel_left]
    congr 1
    · refine List.map_congr_left fun i hi => ?_
      have hi := List.mem_range.mp hi
      rw [BitVec.getLsbD_setWidth, decide_eq_true (by omega : i < v + d), Bool.true_and]
    · simp [List.eq_replicate_iff, BitVec.getLsbD_setWidth]
  rw [hbits, bitPoly_append, bitPoly_replicate_false, List.length_replicate, add_zero]

theorem ofPoly_bitPoly (x : BitVec w) : ofPoly w (bitPoly (bitsLsb x)) = x := by
  ext i hi
  have hindex : w - 1 - (w - 1 - i) = i := by omega
  have hcoeff : (bitPoly (bitsLsb x)).coeff (w - 1 - i) = coeffBit (x.getLsbD i) := by
    rw [coeff_bitPoly, length_bitsLsb, if_pos (by omega), hindex]
    simp [bitsLsb, hi]
  have hbit : (decide ((bitPoly (bitsLsb x)).coeff (w - 1 - i) = 1)) = x.getLsbD i := by
    rw [hcoeff, Bool.eq_iff_iff, decide_eq_true_iff, coeffBit_eq_one]
  rw [ofPoly, BitVec.getElem_setWidth, BitVec.getLsbD_ofBoolListLE, List.getD_eq_getElem?_getD,
    List.getElem?_map, List.getElem?_range hi, ← BitVec.getLsbD_eq_getElem]
  exact hbit

end Words

/-! ### The register -/

section Register
variable {w v : Nat} (poly : BitVec w)

/-- The generator of which a register knows the lower powers. -/
def generator : (ZMod 2)[X] := bitPoly (true :: bitsLsb poly)

theorem generator_eq : generator poly = X ^ w + bitPoly (bitsLsb poly) := by
  simp [generator, bitPoly, coeffBit, length_bitsLsb]

theorem degree_word_lt (x : BitVec w) : (bitPoly (bitsLsb x)).degree < w := by
  have hdegree := degree_bitPoly_lt (bitsLsb x)
  rwa [length_bitsLsb] at hdegree

theorem generator_monic : (generator poly).Monic := by
  rw [generator_eq]
  exact monic_X_pow_add (degree_word_lt poly)

theorem degree_generator : (generator poly).degree = w := by
  have hpow : (X ^ w : (ZMod 2)[X]).degree = w := degree_X_pow w
  rw [generator_eq, degree_add_eq_left_of_degree_lt, hpow]
  rw [hpow]
  exact degree_word_lt poly

/-- A right shift drops the highest power and makes room below. -/
theorem bitPoly_bitsLsb_ushiftRight (x : BitVec w) :
    X * bitPoly (bitsLsb x) =
      C (coeffBit (x.getLsbD 0)) * X ^ w + bitPoly (bitsLsb (x >>> 1)) := by
  cases w with
  | zero =>
      obtain rfl : x = 0#0 := BitVec.eq_of_zero_length rfl
      simp [bitsLsb, bitPoly, coeffBit]
  | succ n =>
      have htail : bitsLsb x = x.getLsbD 0 :: (List.range n).map fun i => x.getLsbD (i + 1) := by
        rw [bitsLsb, List.range_succ_eq_map, List.map_cons, List.map_map]
        rfl
      have hshift : bitsLsb (x >>> 1) =
          ((List.range n).map fun i => x.getLsbD (i + 1)) ++ [false] := by
        rw [bitsLsb, List.range_succ, List.map_append, List.map_singleton]
        simp [BitVec.getLsbD_ushiftRight, Nat.add_comm 1]
      have hlast : bitPoly [false] = 0 := bitPoly_replicate_false 1
      rw [htail, hshift, bitPoly_append, bitPoly, List.length_map, List.length_range, hlast,
        List.length_singleton]
      ring

/-- A shift multiplies by `X`, modulo the generator. -/
theorem dvd_shift (x : BitVec w) :
    generator poly ∣ bitPoly (bitsLsb (shift poly x)) - X * bitPoly (bitsLsb x) := by
  have hmask : bitPoly (bitsLsb (if x.getLsbD 0 then poly else 0#w)) =
      C (coeffBit (x.getLsbD 0)) * bitPoly (bitsLsb poly) := by
    cases x.getLsbD 0 with
    | false => simp [coeffBit, bitPoly_bitsLsb_zero]
    | true => simp [coeffBit]
  refine ⟨C (coeffBit (x.getLsbD 0)), ?_⟩
  rw [bitPoly_bitsLsb_ushiftRight, generator_eq, shift, bitPoly_bitsLsb_xor, hmask,
    CharTwo.sub_eq_add]
  linear_combination CharTwo.add_self_eq_zero (bitPoly (bitsLsb (x >>> 1)))

theorem dvd_iterate_shift (n : Nat) (x : BitVec w) :
    generator poly ∣ bitPoly (bitsLsb ((shift poly)^[n] x)) - X ^ n * bitPoly (bitsLsb x) := by
  induction n generalizing x with
  | zero => simp
  | succ n ih =>
      have hsplit : bitPoly (bitsLsb ((shift poly)^[n + 1] x)) - X ^ (n + 1) * bitPoly (bitsLsb x) =
          (bitPoly (bitsLsb ((shift poly)^[n] (shift poly x))) -
              X ^ n * bitPoly (bitsLsb (shift poly x))) +
            X ^ n * (bitPoly (bitsLsb (shift poly x)) - X * bitPoly (bitsLsb x)) := by
        rw [Function.iterate_succ_apply]
        ring
      rw [hsplit]
      exact dvd_add (ih _) (Dvd.dvd.mul_left (dvd_shift poly x) _)

/-- The bits of some words, each lowest bit first. -/
def messageBits (data : List (BitVec v)) : List Bool := data.flatMap bitsLsb

/-- What the register holds behind some data, modulo the generator. -/
theorem dvd_absorb (h : v ≤ w) (reg : BitVec w) (data : List (BitVec v)) :
    generator poly ∣ bitPoly (bitsLsb (absorb poly reg data)) -
      (X ^ w * bitPoly (messageBits data) +
        X ^ (messageBits data).length * bitPoly (bitsLsb reg)) := by
  induction data generalizing reg with
  | nil => simp [absorb, messageBits, bitPoly]
  | cons x data ih =>
      have hreg := dvd_iterate_shift poly v (reg ^^^ x.setWidth w)
      have hrest := ih ((shift poly)^[v] (reg ^^^ x.setWidth w))
      have hbits : messageBits (x :: data) = bitsLsb x ++ messageBits data := List.flatMap_cons
      have habsorb : absorb poly reg (x :: data) =
          absorb poly ((shift poly)^[v] (reg ^^^ x.setWidth w)) data := rfl
      have hpow : (X ^ w : (ZMod 2)[X]) = X ^ v * X ^ (w - v) := by
        rw [← pow_add, Nat.add_sub_cancel' h]
      rw [bitPoly_bitsLsb_xor, bitPoly_bitsLsb_setWidth h] at hreg
      rw [hbits, habsorb, bitPoly_append, List.length_append, length_bitsLsb, pow_add]
      have hsum := dvd_add hrest (Dvd.dvd.mul_left hreg (X ^ (messageBits data).length))
      convert hsum using 1
      rw [hpow]
      ring

/-- With the register preset to ones, the remainder is what is left in it. -/
theorem absorb_eq_remainder (h : v ≤ w) (data : List (BitVec v)) :
    absorb poly (BitVec.allOnes w) data =
      ofPoly w (remainder w (generator poly) (messageBits data)) := by
  have hones : bitsLsb (BitVec.allOnes w) = List.replicate w true := by
    refine List.eq_replicate_iff.mpr ⟨length_bitsLsb _, fun b hb => ?_⟩
    obtain ⟨i, hi, rfl⟩ := List.mem_map.mp hb
    rw [BitVec.getLsbD_allOnes, decide_eq_true (List.mem_range.mp hi)]
  have hdvd := dvd_absorb poly h (BitVec.allOnes w) data
  rw [hones] at hdvd
  have hmod := modByMonic_eq_of_dvd_sub (generator_monic poly) hdvd
  rw [(modByMonic_eq_self_iff (generator_monic poly)).mpr
    (by rw [degree_generator]; exact degree_word_lt _)] at hmod
  rw [remainder, ← hmod, ofPoly_bitPoly]

end Register

end

end Crc
