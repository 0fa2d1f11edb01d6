import SafetyCopro.Protocol.Crc

/-!
What the checksum detects. A frame that was accepted is accepted again after a
change only if the terms of the changed bytes cancel. They do not within four
bytes, which fill the register, nor for two bits, whose terms are two places of
an orbit longer than a frame.
-/

namespace SafetyCopro

variable {buf : List U8}

/-- Only bytes of the frame change, and none of magic, version and payload length. -/
structure Altered (buf buf' : List U8) : Prop where
  length : buf'.length = buf.length
  kept : ∀ i, byteAt buf' i ≠ byteAt buf i →
    i < safetyHeaderSize + announced buf ∧ i ∉ [0, 1, 2, 6, 7]

namespace Altered
variable {buf buf' : List U8} (h : Altered buf buf')
include h

theorem byteAt_eq {i : Nat} (hi : i ∈ [0, 1, 2, 6, 7]) : byteAt buf' i = byteAt buf i := by
  by_contra hne
  exact (h.kept i hne).2 hi

theorem validate_badChecksum (hok : safetyFrameValidate buf = .ok) {s : U32}
    (hres : residue buf' = residue buf ^^^ s) (hs : s ≠ 0#32) :
    safetyFrameValidate buf' = .badChecksum := by
  obtain ⟨hheader, hmagic, hversion, hfits, hwhole, hsum⟩ := safetyFrameValidate_ok_iff.mp hok
  have hmagic' : (SafetyFrameHeader.ofBytes buf').magic = (SafetyFrameHeader.ofBytes buf).magic :=
    congrArg₂ (· ++ ·) (h.byteAt_eq (by decide)) (h.byteAt_eq (by decide))
  have hplen' : (SafetyFrameHeader.ofBytes buf').payloadLength =
      (SafetyFrameHeader.ofBytes buf).payloadLength :=
    congrArg₂ (· ++ ·) (h.byteAt_eq (by decide)) (h.byteAt_eq (by decide))
  have hversion' : (SafetyFrameHeader.ofBytes buf').version =
      (SafetyFrameHeader.ofBytes buf).version := h.byteAt_eq (by decide)
  rw [residue, residue, hsum, BitVec.xor_self, BitVec.zero_xor] at hres
  refine safetyFrameValidate_badChecksum (by rwa [h.length]) (hmagic'.trans hmagic)
    (hversion'.trans hversion) (by rwa [hplen']) (by rwa [hplen', h.length]) fun heq => ?_
  rw [heq, BitVec.xor_self] at hres
  exact hs hres.symm

end Altered

/-! ### Four bytes in a row -/

/-- What four bytes in a row are changed by. -/
def window (buf buf' : List U8) (i : Nat) : List (Nat × U8) :=
  [(i, byteAt buf' i ^^^ byteAt buf i), (i + 1, byteAt buf' (i + 1) ^^^ byteAt buf (i + 1)),
    (i + 2, byteAt buf' (i + 2) ^^^ byteAt buf (i + 2)),
    (i + 3, byteAt buf' (i + 3) ^^^ byteAt buf (i + 3))]

theorem xor_xor_self (a b : U8) : a ^^^ (b ^^^ a) = b := by
  rw [BitVec.xor_comm b, ← BitVec.xor_assoc, BitVec.xor_self, BitVec.zero_xor]

theorem window_lt {n i : Nat} (hi : i + 4 ≤ n) (buf buf' : List U8) :
    ∀ e ∈ window buf buf' i, e.1 < n := by
  simp only [window, List.forall_mem_cons]
  exact ⟨by omega, by omega, by omega, by omega, List.forall_mem_nil _⟩

theorem change_window {buf' : List U8} (hlen : buf'.length = buf.length) {i : Nat}
    (hi : i + 4 ≤ buf.length)
    (h : ∀ k, byteAt buf' k ≠ byteAt buf k → i ≤ k ∧ k < i + 4) :
    change buf (window buf buf' i) = buf' := by
  refine ext_byteAt (by rw [length_change, hlen]) fun k _ => ?_
  rw [byteAt_change (window_lt hi buf buf')]
  simp only [window, List.foldl_cons, List.foldl_nil]
  by_cases hk : i ≤ k ∧ k < i + 4
  · have hcases : k = i ∨ k = i + 1 ∨ k = i + 2 ∨ k = i + 3 := by omega
    obtain rfl | rfl | rfl | rfl := hcases <;>
      simp (disch := omega) only [if_true, if_neg, BitVec.xor_zero, xor_xor_self]
  · rw [if_neg (by omega), if_neg (by omega), if_neg (by omega), if_neg (by omega),
      BitVec.xor_zero, BitVec.xor_zero, BitVec.xor_zero, BitVec.xor_zero]
    by_contra hne
    exact hk (h k (Ne.symm hne))

/-- Changes that cancel in a window are no changes. -/
theorem eq_of_word_window {buf' : List U8} (hlen : buf'.length = buf.length) {i : Nat}
    (h : ∀ k, byteAt buf' k ≠ byteAt buf k → i ≤ k ∧ k < i + 4)
    (hzero : word (byteAt buf' i ^^^ byteAt buf i) (byteAt buf' (i + 1) ^^^ byteAt buf (i + 1))
      (byteAt buf' (i + 2) ^^^ byteAt buf (i + 2)) (byteAt buf' (i + 3) ^^^ byteAt buf (i + 3)) =
        0#32) : buf' = buf := by
  obtain ⟨h0, h1, h2, h3⟩ := word_eq_zero hzero
  refine ext_byteAt hlen fun k _ => ?_
  by_contra hne
  have hk := h k hne
  have hcases : k = i ∨ k = i + 1 ∨ k = i + 2 ∨ k = i + 3 := by omega
  obtain rfl | rfl | rfl | rfl := hcases
  · exact hne (BitVec.xor_eq_zero_iff.mp h0)
  · exact hne (BitVec.xor_eq_zero_iff.mp h1)
  · exact hne (BitVec.xor_eq_zero_iff.mp h2)
  · exact hne (BitVec.xor_eq_zero_iff.mp h3)

/-- Shifting a byte out from behind `k` clear ones. -/
theorem iterate_shift_byte (x : U8) {k : Nat} (hk : k ≤ 24) :
    (Crc.shift crcPoly)^[k] (x.setWidth 32 <<< k) = x.setWidth 32 := by
  refine Crc.iterate_shift_shiftLeft crcPoly fun i hi => ?_
  rw [BitVec.getLsbD_setWidth, BitVec.getLsbD_of_ge x i (by omega), Bool.and_false]

/-- Outside the checksum, the terms of a window are those of one word. -/
theorem syndromes_window {n i : Nat} (hi : i + 4 ≤ n) (a b c d : U8) :
    (Crc.shift crcPoly)^[8 * (n - i)] (word a b c d) =
      (Crc.shift crcPoly)^[8 * (n - i)] (a.setWidth 32) ^^^
        (Crc.shift crcPoly)^[8 * (n - (i + 1))] (b.setWidth 32) ^^^
        (Crc.shift crcPoly)^[8 * (n - (i + 2))] (c.setWidth 32) ^^^
        (Crc.shift crcPoly)^[8 * (n - (i + 3))] (d.setWidth 32) := by
  have hshift : ∀ (x : U8) (k : Nat), k ≤ 3 →
      (Crc.shift crcPoly)^[8 * (n - i)] (x.setWidth 32 <<< (8 * k)) =
        (Crc.shift crcPoly)^[8 * (n - (i + k))] (x.setWidth 32) := by
    intro x k hk
    have hsplit : 8 * (n - i) = 8 * (n - (i + k)) + 8 * k := by omega
    rw [hsplit, Function.iterate_add_apply, iterate_shift_byte x (by omega)]
  rw [word_eq_xor, Crc.iterate_shift_xor, Crc.iterate_shift_xor, Crc.iterate_shift_xor,
    ← hshift b 1 (by omega), ← hshift c 2 (by omega), ← hshift d 3 (by omega)]

namespace Altered
variable {buf buf' : List U8} (h : Altered buf buf')
include h

theorem residue_window (hlen : safetyHeaderSize + announced buf ≤ buf.length) {i : Nat}
    (hi : i + 4 ≤ safetyHeaderSize + announced buf)
    (hwin : ∀ k, byteAt buf' k ≠ byteAt buf k → i ≤ k ∧ k < i + 4) :
    residue buf' =
      residue buf ^^^ syndromes (safetyHeaderSize + announced buf) (window buf buf' i) := by
  rw [← residue_change hlen, change_window h.length (by omega) hwin]
  have hkept : ∀ k, byteAt buf' k ^^^ byteAt buf k ≠ 0#8 → k ≠ 6 ∧ k ≠ 7 := by
    intro k hk
    have hmem := (h.kept k (mt BitVec.xor_eq_zero_iff.mpr hk)).2
    simp only [List.mem_cons, not_or] at hmem
    exact ⟨hmem.2.2.2.1, hmem.2.2.2.2.1⟩
  intro e he
  refine ⟨window_lt hi buf buf' e he, ?_⟩
  simp only [window, List.mem_cons, List.not_mem_nil, or_false] at he
  obtain rfl | rfl | rfl | rfl := he <;> exact hkept _

/-- A burst of at most four bytes that leaves the checksum alone. -/
theorem validate_burst (hok : safetyFrameValidate buf = .ok) (hne : buf' ≠ buf) {i : Nat}
    (hwin : ∀ k, byteAt buf' k ≠ byteAt buf k → (i ≤ k ∧ k < i + 4) ∧ ¬ (12 ≤ k ∧ k < 16)) :
    safetyFrameValidate buf' = .badChecksum := by
  have h16 : safetyHeaderSize = 16 := rfl
  have hlen : safetyHeaderSize + announced buf ≤ buf.length :=
    (safetyFrameValidate_ok_iff.mp hok).whole
  -- a window that reaches beyond the frame is moved back
  obtain ⟨j, hj, hwin'⟩ : ∃ j, j + 4 ≤ safetyHeaderSize + announced buf ∧
      ∀ k, byteAt buf' k ≠ byteAt buf k → j ≤ k ∧ k < j + 4 := by
    refine ⟨min i (safetyHeaderSize + announced buf - 4), by omega, fun k hk => ?_⟩
    have hk' := (h.kept k hk).1
    have hik := (hwin k hk).1
    omega
  refine h.validate_badChecksum hok (h.residue_window hlen hj hwin') fun hzero => hne ?_
  have hterm : ∀ k, syndrome (safetyHeaderSize + announced buf) k (byteAt buf' k ^^^ byteAt buf k) =
      (Crc.shift crcPoly)^[8 * (safetyHeaderSize + announced buf - k)]
        ((byteAt buf' k ^^^ byteAt buf k).setWidth 32) := by
    intro k
    by_cases hk : 12 ≤ k ∧ k < 16
    · have hsame : byteAt buf' k = byteAt buf k := by
        by_contra hdiff
        exact (hwin k hdiff).2 hk
      rw [hsame, BitVec.xor_self, syndrome_zero, BitVec.setWidth_zero, Crc.iterate_shift_zero]
    · rw [syndrome, if_neg hk]
  refine eq_of_word_window h.length hwin' (Crc.iterate_shift_injective crcPoly
    (n := 8 * (safetyHeaderSize + announced buf - j)) (by decide) ?_)
  rw [syndromes_window hj, ← hzero]
  simp only [syndromes, window, List.foldr_cons, List.foldr_nil, hterm, BitVec.xor_zero,
    BitVec.xor_assoc]

theorem validate_checksumOnly (hok : safetyFrameValidate buf = .ok) (hne : buf' ≠ buf)
    (hsum : ∀ k, byteAt buf' k ≠ byteAt buf k → 12 ≤ k ∧ k < 16) :
    safetyFrameValidate buf' = .badChecksum := by
  have h16 : safetyHeaderSize = 16 := rfl
  have hlen : safetyHeaderSize + announced buf ≤ buf.length :=
    (safetyFrameValidate_ok_iff.mp hok).whole
  refine h.validate_badChecksum hok (h.residue_window hlen (by omega) hsum) fun hzero => hne ?_
  refine eq_of_word_window h.length hsum ?_
  rw [← hzero, word_eq_xor]
  simp only [syndromes, window, List.foldr_cons, List.foldr_nil, syndrome, BitVec.xor_zero,
    BitVec.xor_assoc]
  simp

end Altered

/-! ### Two bits -/

/-- The bits are numbered by their byte and their place in it. -/
def flipBit (buf : List U8) (bit : Nat × Nat) : List U8 :=
  buf.modify bit.1 (· ^^^ BitVec.twoPow 8 bit.2)

/-- How far the top bit of the register is shifted to give the term of a bit. -/
def bitShifts (n : Nat) (bit : Nat × Nat) : Nat :=
  if 12 ≤ bit.1 ∧ bit.1 < 16 then 31 - (8 * (bit.1 - 12) + bit.2)
  else 8 * (n - bit.1) + (31 - bit.2)

theorem setWidth_twoPow {b : Nat} (hb : b < 8) :
    (BitVec.twoPow 8 b).setWidth 32 = BitVec.twoPow 32 b := by
  refine BitVec.eq_of_toNat_eq ?_
  have hlt : 2 ^ b < 2 ^ 8 := Nat.pow_lt_pow_right (by decide) hb
  rw [BitVec.toNat_setWidth, BitVec.toNat_twoPow_of_lt hb, BitVec.toNat_twoPow_of_lt (by omega),
    Nat.mod_eq_of_lt (by omega)]

theorem syndrome_twoPow (n : Nat) {bit : Nat × Nat} (hb : bit.2 < 8) :
    syndrome n bit.1 (BitVec.twoPow 8 bit.2) =
      (Crc.shift crcPoly)^[bitShifts n bit] (BitVec.twoPow 32 31) := by
  rw [syndrome, bitShifts, setWidth_twoPow hb]
  split
  · have htop := Crc.iterate_shift_twoPow crcPoly (by omega : 8 * (bit.1 - 12) + bit.2 < 32)
    rw [htop, BitVec.twoPow_eq, BitVec.twoPow_eq, ← BitVec.shiftLeft_add, Nat.add_comm]
  · rw [Function.iterate_add_apply, ← Crc.iterate_shift_twoPow crcPoly (by omega : bit.2 < 32)]

theorem bitShifts_injective {n : Nat} (hn : 16 ≤ n) {p q : Nat × Nat} (hp : p.1 < n ∧ p.2 < 8)
    (hq : q.1 < n ∧ q.2 < 8) (h : bitShifts n p = bitShifts n q) : p = q := by
  simp only [bitShifts] at h
  refine Prod.ext ?_ ?_
  · split at h <;> split at h <;> omega
  · split at h <;> split at h <;> omega

/-- The top bit does not come back within the bits of the longest frame. -/
theorem crcPoly_avoids :
    Crc.avoids crcPoly (BitVec.twoPow 32 31) 2207 (BitVec.twoPow 32 31) = true := by
  decide +kernel

theorem syndromes_two_bits {n : Nat} (hn : 16 ≤ n) (hn' : n ≤ 272) {p q : Nat × Nat}
    (hp : p.1 < n ∧ p.2 < 8) (hq : q.1 < n ∧ q.2 < 8) (hne : p ≠ q) :
    syndromes n [(p.1, BitVec.twoPow 8 p.2), (q.1, BitVec.twoPow 8 q.2)] ≠ 0#32 := by
  have hshifts : ∀ bit : Nat × Nat, bitShifts n bit ≤ 2207 := by
    intro bit
    rw [bitShifts]
    split <;> omega
  simp only [syndromes, List.foldr_cons, List.foldr_nil, BitVec.xor_zero, syndrome_twoPow n hp.2,
    syndrome_twoPow n hq.2]
  exact Crc.iterate_xor_ne_zero crcPoly (by decide) crcPoly_avoids (hshifts p) (hshifts q)
    fun h => hne (bitShifts_injective hn hp hq h)

theorem twoPow_ne_zero {b : Nat} (hb : b < 8) : BitVec.twoPow 8 b ≠ 0#8 := by
  intro h
  have hbit := congrArg (fun y => y.getLsbD b) h
  simp [hb] at hbit

/-- Both bytes show a change, also when they are one byte. -/
theorem byteAt_flip_two {p q : Nat × Nat} (hp : p.1 < buf.length ∧ p.2 < 8)
    (hq : q.1 < buf.length ∧ q.2 < 8) (hne : p ≠ q) :
    byteAt (flipBit (flipBit buf p) q) p.1 ≠ byteAt buf p.1 ∧
      byteAt (flipBit (flipBit buf p) q) q.1 ≠ byteAt buf q.1 := by
  have hbyte : ∀ i, byteAt (flipBit (flipBit buf p) q) i =
      byteAt buf i ^^^ ((if i = p.1 then BitVec.twoPow 8 p.2 else 0#8) ^^^
        (if i = q.1 then BitVec.twoPow 8 q.2 else 0#8)) := by
    intro i
    rw [flipBit, flipBit, byteAt_modify_xor _ (by rw [List.length_modify]; exact hq.1),
      byteAt_modify_xor _ hp.1, BitVec.xor_assoc]
  have hchange : ∀ a x : U8, x ≠ 0#8 → a ^^^ x ≠ a := by
    intro a x hx h
    refine hx ?_
    rw [← xor_xor_self a x, BitVec.xor_comm x, h, BitVec.xor_self]
  by_cases hsame : p.1 = q.1
  · have hpow : BitVec.twoPow 8 p.2 ^^^ BitVec.twoPow 8 q.2 ≠ 0#8 := by
      intro h
      have hbit := congrArg (fun y => y.getLsbD p.2) (BitVec.xor_eq_zero_iff.mp h)
      simp [hp.2] at hbit
      exact hne (Prod.ext hsame hbit)
    rw [hbyte, hbyte, if_pos rfl, if_pos hsame, if_pos hsame.symm, if_pos rfl]
    exact ⟨hchange _ _ hpow, hchange _ _ hpow⟩
  · rw [hbyte, hbyte, if_pos rfl, if_neg hsame, if_neg (Ne.symm hsame), if_pos rfl,
      BitVec.xor_zero, BitVec.zero_xor]
    exact ⟨hchange _ _ (twoPow_ne_zero hp.2), hchange _ _ (twoPow_ne_zero hq.2)⟩

theorem Altered.validate_two_bits {buf : List U8} {p q : Nat × Nat}
    (h : Altered buf (flipBit (flipBit buf p) q)) (hok : safetyFrameValidate buf = .ok)
    (hp : p.1 < safetyHeaderSize + announced buf ∧ p.2 < 8)
    (hq : q.1 < safetyHeaderSize + announced buf ∧ q.2 < 8) (hne : p ≠ q) :
    safetyFrameValidate (flipBit (flipBit buf p) q) = .badChecksum := by
  have haccepted := safetyFrameValidate_ok_iff.mp hok
  have hlen : safetyHeaderSize + announced buf ≤ buf.length := haccepted.whole
  have hfits : announced buf ≤ 256 := haccepted.fits
  have h16 : safetyHeaderSize = 16 := rfl
  have hp' : p.1 < buf.length := Nat.lt_of_lt_of_le hp.1 hlen
  have hq' : q.1 < buf.length := Nat.lt_of_lt_of_le hq.1 hlen
  obtain ⟨hpd, hqd⟩ := byteAt_flip_two ⟨hp', hp.2⟩ ⟨hq', hq.2⟩ hne
  have hkept : ∀ i, byteAt (flipBit (flipBit buf p) q) i ≠ byteAt buf i → i ≠ 6 ∧ i ≠ 7 := by
    intro i hi
    have hmem := (h.kept i hi).2
    simp only [List.mem_cons, not_or] at hmem
    exact ⟨hmem.2.2.2.1, hmem.2.2.2.2.1⟩
  refine h.validate_badChecksum hok
    (@residue_change buf [(p.1, BitVec.twoPow 8 p.2), (q.1, BitVec.twoPow 8 q.2)] hlen ?_)
    (syndromes_two_bits (by omega) (by omega) hp hq hne)
  simp only [List.forall_mem_cons]
  exact ⟨⟨hp.1, fun _ => hkept _ hpd⟩, ⟨hq.1, fun _ => hkept _ hqd⟩, List.forall_mem_nil _⟩

/-- A nonzero change of bytes other than the checksum, within four bytes in a row. -/
def Burst (buf buf' : List U8) : Prop :=
  buf' ≠ buf ∧ ∃ i, ∀ k, byteAt buf' k ≠ byteAt buf k →
    (i ≤ k ∧ k < i + 4) ∧ ¬ (12 ≤ k ∧ k < 16)

def ChecksumOnly (buf buf' : List U8) : Prop :=
  buf' ≠ buf ∧ ∀ k, byteAt buf' k ≠ byteAt buf k → 12 ≤ k ∧ k < 16

/-- Exactly two bits of the frame are flipped. -/
def TwoBits (buf buf' : List U8) : Prop :=
  ∃ p q : Nat × Nat, p ≠ q ∧ (p.1 < safetyHeaderSize + announced buf ∧ p.2 < 8) ∧
    (q.1 < safetyHeaderSize + announced buf ∧ q.2 < 8) ∧ buf' = flipBit (flipBit buf p) q

theorem validate_detects {buf buf' : List U8} (hok : safetyFrameValidate buf = .ok)
    (h : Altered buf buf') (hkind : Burst buf buf' ∨ ChecksumOnly buf buf' ∨ TwoBits buf buf') :
    safetyFrameValidate buf' = .badChecksum := by
  obtain ⟨hne, i, hwin⟩ | ⟨hne, hsum⟩ | ⟨p, q, hne, hp, hq, rfl⟩ := hkind
  · exact h.validate_burst hok hne hwin
  · exact h.validate_checksumOnly hok hne hsum
  · exact h.validate_two_bits hok hp hq hne

/-- The type of a heartbeat without payload, changed on the way. -/
theorem validate_detects_type :
    let buf := (sealedHeader safetyFrameHeartbeat 1 0 []).toBytes
    Altered buf (buf.modify 3 (· ^^^ 2#8)) ∧
      safetyFrameValidate (buf.modify 3 (· ^^^ 2#8)) = .badChecksum := by
  intro buf
  have hok : safetyFrameValidate buf = .ok :=
    @safetyFrameValidate_sealed safetyFrameHeartbeat 1 0 [] (by decide) []
  have hthree : ∀ k, byteAt (buf.modify 3 (· ^^^ 2#8)) k ≠ byteAt buf k → k = 3 := by
    intro k hk
    by_contra hne
    rw [byteAt_modify, if_neg fun h => hne h.1] at hk
    exact hk rfl
  have hlen : (buf.modify 3 (· ^^^ 2#8)).length = buf.length := List.length_modify ..
  have haltered : Altered buf (buf.modify 3 (· ^^^ 2#8)) := by
    refine ⟨hlen, fun k hk => ?_⟩
    obtain rfl := hthree k hk
    decide
  have hne : buf.modify 3 (· ^^^ 2#8) ≠ buf := fun h =>
    absurd (congrArg (byteAt · 3) h) (by decide)
  refine ⟨haltered, validate_detects hok haltered (.inl ⟨hne, 3, fun k hk => ?_⟩)⟩
  have hk := hthree k hk
  omega

end SafetyCopro
