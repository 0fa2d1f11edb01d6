import SafetyCopro.Lib.Crc
import SafetyCopro.Protocol.Framing
import SafetyCopro.Protocol.Validate

/-!
The checksum of a frame as a function of its bytes. The CRC register is linear,
so what a change of a frame does to the check depends on the change alone:
every changed byte adds a term of its own.
-/

namespace SafetyCopro

def crcPoly : U32 := 0xEDB88320#32

theorem crc32Shift_eq (crc : U32) : crc32Shift crc = Crc.shift crcPoly crc := by
  have hmask : ~~~(crc &&& 1#32) + 1#32 = if crc.getLsbD 0 then BitVec.allOnes 32 else 0#32 := by
    rw [BitVec.and_one_eq_setWidth_ofBool_getLsbD]
    cases crc.getLsbD 0 <;> rfl
  rw [crc32Shift, hmask, Crc.shift, crcPoly]
  cases crc.getLsbD 0 <;> rfl

theorem safetyCrc32Step_eq (crc : U32) (data : List U8) :
    safetyCrc32Step crc data = Crc.absorb crcPoly crc data := by
  rw [safetyCrc32Step, Crc.absorb, funext crc32Shift_eq]
  rfl

/-! ### The bytes the checksum covers -/

theorem ext_byteAt {buf buf' : List U8} (hlen : buf.length = buf'.length)
    (h : ∀ i, i < buf.length → byteAt buf i = byteAt buf' i) : buf = buf' := by
  refine List.ext_getElem hlen fun i hi hi' => ?_
  rw [List.getElem_eq_getD 0, List.getElem_eq_getD 0]
  exact h i hi

theorem byteAt_append_right {buf : List U8} (more : List U8) {i : Nat} (h : buf.length ≤ i) :
    byteAt (buf ++ more) i = byteAt more (i - buf.length) := by
  simp only [byteAt, List.getD, List.getElem?_append_right h]

theorem byteAt_take {buf : List U8} {n i : Nat} (h : i < n) :
    byteAt (buf.take n) i = byteAt buf i := by
  simp only [byteAt, List.getD, List.getElem?_take_of_lt h]

theorem byteAt_drop (buf : List U8) (n i : Nat) :
    byteAt (buf.drop n) i = byteAt buf (n + i) := by
  simp only [byteAt, List.getD, List.getElem?_drop]

theorem byteAt_modify (buf : List U8) (j : Nat) (f : U8 → U8) (i : Nat) :
    byteAt (buf.modify j f) i =
      if i = j ∧ j < buf.length then f (byteAt buf j) else byteAt buf i := by
  simp only [byteAt, List.getD, List.getElem?_modify]
  grind

/-- The frame's bytes with the checksum cleared. -/
def covered (buf : List U8) : List U8 :=
  { SafetyFrameHeader.ofBytes buf with checksum := 0 }.toBytes ++
    (buf.drop safetyHeaderSize).take (announced buf)

theorem length_covered {buf : List U8} (h : safetyHeaderSize + announced buf ≤ buf.length) :
    (covered buf).length = safetyHeaderSize + announced buf := by
  rw [covered, List.length_append, toBytes_length, List.length_take, List.length_drop,
    Nat.min_eq_left (by omega)]

theorem byteAt_covered {buf : List U8} (h : safetyHeaderSize + announced buf ≤ buf.length) {i : Nat}
    (hi : i < safetyHeaderSize + announced buf) :
    byteAt (covered buf) i = if 12 ≤ i ∧ i < 16 then 0 else byteAt buf i := by
  have h16 : safetyHeaderSize = 16 := rfl
  have hhead : { SafetyFrameHeader.ofBytes buf with checksum := 0 }.toBytes =
      buf.take 12 ++ [0, 0, 0, 0] := by
    rw [take_eq_map_byteAt (by omega)]
    simp only [SafetyFrameHeader.toBytes, SafetyFrameHeader.ofBytes, le16_u16At, le32_u32At]
    rfl
  have htake : (buf.take 12).length = 12 := List.length_take_of_le (by omega)
  have hlen : (buf.take 12 ++ [(0 : U8), 0, 0, 0]).length = 16 := by
    rw [List.length_append, htake]
    rfl
  rw [covered, hhead, h16]
  by_cases hbefore : i < 12
  · rw [if_neg (by omega), byteAt_append_left _ (by omega), byteAt_append_left _ (by omega),
      byteAt_take hbefore]
  by_cases hsum : i < 16
  · have hcases : i - 12 = 0 ∨ i - 12 = 1 ∨ i - 12 = 2 ∨ i - 12 = 3 := by omega
    rw [if_pos (by omega), byteAt_append_left _ (by omega), byteAt_append_right _ (by omega), htake]
    obtain hi | hi | hi | hi := hcases <;> rw [hi] <;> rfl
  · rw [if_neg (by omega), byteAt_append_right _ (by omega), hlen, byteAt_take (by omega),
      byteAt_drop, Nat.add_sub_cancel' (by omega)]

theorem safetyFrameComputeChecksum_eq (buf : List U8) :
    safetyFrameComputeChecksum (.ofBytes buf) (buf.drop safetyHeaderSize)
        (SafetyFrameHeader.ofBytes buf).payloadLength =
      Crc.absorb crcPoly 0xFFFFFFFF#32 (covered buf) ^^^ 0xFFFFFFFF#32 := by
  simp only [safetyFrameComputeChecksum, safetyCrc32Step_eq, Crc.absorb, covered,
    List.foldl_append]
  rfl

/-! ### One changed byte -/

variable {buf : List U8} {j : Nat}

theorem u16At_modify (f : U8 → U8) {i : Nat} (h : j ≠ i) (h' : j ≠ i + 1) :
    u16At (buf.modify j f) i = u16At buf i := by
  rw [u16At, u16At, byteAt_modify, byteAt_modify, if_neg (by omega), if_neg (by omega)]

theorem announced_modify (f : U8 → U8) (h : j ≠ 6) (h' : j ≠ 7) :
    announced (buf.modify j f) = announced buf :=
  congrArg BitVec.toNat (u16At_modify f h h')

theorem covered_modify (f : U8 → U8) (hlen : safetyHeaderSize + announced buf ≤ buf.length)
    (hj : j < safetyHeaderSize + announced buf) (h : j ≠ 6) (h' : j ≠ 7) :
    covered (buf.modify j f) =
      if 12 ≤ j ∧ j < 16 then covered buf else (covered buf).modify j f := by
  have hann : announced (buf.modify j f) = announced buf := announced_modify f h h'
  have hlen' : safetyHeaderSize + announced (buf.modify j f) ≤ (buf.modify j f).length := by
    rwa [hann, List.length_modify]
  have hcov := length_covered hlen
  have hcov' := length_covered hlen'
  refine ext_byteAt ?_ fun i hi => ?_
  · rw [hcov', hann]
    split
    · rw [hcov]
    · rw [List.length_modify, hcov]
  · rw [hcov', hann] at hi
    rw [byteAt_covered hlen' (by rw [hann]; exact hi), byteAt_modify]
    by_cases hsum : 12 ≤ j ∧ j < 16
    · rw [if_pos hsum, byteAt_covered hlen hi]
      split
      · rfl
      · rw [if_neg (by omega)]
    · rw [if_neg hsum, byteAt_modify, byteAt_covered hlen hi, byteAt_covered hlen hj, hcov,
        if_neg hsum]
      grind

/-- Four bytes as a little-endian word. -/
def word (a b c d : U8) : U32 := (d ++ c : U16) ++ (b ++ a : U16)

theorem u32At_eq_word (buf : List U8) (i : Nat) :
    u32At buf i =
      word (byteAt buf i) (byteAt buf (i + 1)) (byteAt buf (i + 2)) (byteAt buf (i + 3)) := rfl

theorem word_xor (a b c d a' b' c' d' : U8) :
    word (a ^^^ a') (b ^^^ b') (c ^^^ c') (d ^^^ d') = word a b c d ^^^ word a' b' c' d' := by
  rw [word, word, word, ← BitVec.xor_append, ← BitVec.xor_append]
  exact BitVec.xor_append.symm

theorem word_eq_zero {a b c d : U8} (h : word a b c d = 0#32) :
    a = 0#8 ∧ b = 0#8 ∧ c = 0#8 ∧ d = 0#8 := by
  have hbytes := congrArg le32 h
  rw [word, le32_append, le16_append, le16_append] at hbytes
  injection hbytes with ha hbytes
  injection hbytes with hb hbytes
  injection hbytes with hc hbytes
  injection hbytes with hd
  exact ⟨ha, hb, hc, hd⟩

theorem word_eq_xor (a b c d : U8) :
    word a b c d =
      a.setWidth 32 ^^^ b.setWidth 32 <<< 8 ^^^ c.setWidth 32 <<< 16 ^^^ d.setWidth 32 <<< 24 := by
  ext k hk
  simp only [word, BitVec.getElem_xor, BitVec.getElem_shiftLeft,
    BitVec.getElem_setWidth]
  grind

theorem byteAt_modify_xor (x : U8) (hj : j < buf.length) (i : Nat) :
    byteAt (buf.modify j (· ^^^ x)) i = byteAt buf i ^^^ (if i = j then x else 0#8) := by
  rw [byteAt_modify]
  by_cases hi : i = j
  · rw [if_pos ⟨hi, hj⟩, if_pos hi, hi]
  · rw [if_neg fun h => hi h.1, if_neg hi, BitVec.xor_zero]

theorem checksum_modify (x : U8) (hlen : 16 ≤ buf.length) (h : 12 ≤ j) (h' : j < 16) :
    u32At (buf.modify j (· ^^^ x)) 12 =
      u32At buf 12 ^^^ x.setWidth 32 <<< (8 * (j - 12)) := by
  have hpart : word (if 12 = j then x else 0#8) (if 12 + 1 = j then x else 0#8)
      (if 12 + 2 = j then x else 0#8) (if 12 + 3 = j then x else 0#8) =
        x.setWidth 32 <<< (8 * (j - 12)) := by
    have hcases : j = 12 ∨ j = 13 ∨ j = 14 ∨ j = 15 := by omega
    obtain rfl | rfl | rfl | rfl := hcases <;> simp [word_eq_xor]
  simp only [u32At_eq_word, byteAt_modify_xor x (by omega : j < buf.length), word_xor, hpart]

/-- What is wrong with the checksum a buffer carries. -/
def residue (buf : List U8) : U32 :=
  safetyFrameComputeChecksum (.ofBytes buf) (buf.drop safetyHeaderSize)
    (SafetyFrameHeader.ofBytes buf).payloadLength ^^^ (SafetyFrameHeader.ofBytes buf).checksum

/-- What a change of byte `j` by `x` does to the residue of a frame of `n` bytes. -/
def syndrome (n j : Nat) (x : U8) : U32 :=
  if 12 ≤ j ∧ j < 16 then x.setWidth 32 <<< (8 * (j - 12))
  else (Crc.shift crcPoly)^[8 * (n - j)] (x.setWidth 32)

theorem residue_modify (x : U8) (hlen : safetyHeaderSize + announced buf ≤ buf.length)
    (hj : j < safetyHeaderSize + announced buf) (h : j ≠ 6) (h' : j ≠ 7) :
    residue (buf.modify j (· ^^^ x)) =
      residue buf ^^^ syndrome (safetyHeaderSize + announced buf) j x := by
  have h16 : safetyHeaderSize = 16 := rfl
  rw [residue, residue, safetyFrameComputeChecksum_eq, safetyFrameComputeChecksum_eq,
    covered_modify _ hlen hj h h', syndrome]
  simp only [SafetyFrameHeader.ofBytes]
  split
  · rename_i hsum
    rw [checksum_modify x (by omega) hsum.1 hsum.2, ← BitVec.xor_assoc]
  · rename_i hsum
    have hkeep : u32At (buf.modify j (· ^^^ x)) 12 = u32At buf 12 := by
      rw [u32At, u32At, u16At_modify _ (by omega) (by omega), u16At_modify _ (by omega) (by omega)]
    rw [hkeep, Crc.absorb_modify crcPoly _ (by rw [length_covered hlen]; exact hj) x,
      length_covered hlen]
    ac_rfl

/-! ### Several changed bytes -/

/-- A list of places, each with what its byte is changed by. -/
def change (buf : List U8) (es : List (Nat × U8)) : List U8 :=
  es.foldl (fun buf e => buf.modify e.1 (· ^^^ e.2)) buf

theorem length_change (buf : List U8) (es : List (Nat × U8)) :
    (change buf es).length = buf.length := by
  induction es generalizing buf with
  | nil => rfl
  | cons e es ih => exact (ih _).trans (List.length_modify ..)

theorem byteAt_change {es : List (Nat × U8)} (h : ∀ e ∈ es, e.1 < buf.length) (i : Nat) :
    byteAt (change buf es) i =
      es.foldl (fun b e => b ^^^ (if i = e.1 then e.2 else 0#8)) (byteAt buf i) := by
  induction es generalizing buf with
  | nil => rfl
  | cons e es ih =>
      obtain ⟨he, hes⟩ := List.forall_mem_cons.mp h
      have hrest := @ih (buf.modify e.1 (· ^^^ e.2)) (by rwa [List.length_modify])
      rw [byteAt_modify_xor e.2 he] at hrest
      exact hrest

def syndromes (n : Nat) (es : List (Nat × U8)) : U32 :=
  es.foldr (fun e sum => syndrome n e.1 e.2 ^^^ sum) 0#32

theorem syndrome_zero (n j : Nat) : syndrome n j 0#8 = 0#32 := by
  rw [syndrome]
  split
  · exact BitVec.zero_shiftLeft _
  · exact Crc.iterate_shift_zero crcPoly _

theorem modify_xor_zero (buf : List U8) (j : Nat) : buf.modify j (· ^^^ 0#8) = buf := by
  have hid : (fun y : U8 => y ^^^ 0#8) = id := funext fun y => BitVec.xor_zero
  rw [hid, List.modify_id]

theorem residue_change {es : List (Nat × U8)}
    (hlen : safetyHeaderSize + announced buf ≤ buf.length)
    (h : ∀ e ∈ es, e.1 < safetyHeaderSize + announced buf ∧ (e.2 ≠ 0#8 → e.1 ≠ 6 ∧ e.1 ≠ 7)) :
    residue (change buf es) =
      residue buf ^^^ syndromes (safetyHeaderSize + announced buf) es := by
  induction es generalizing buf with
  | nil => exact BitVec.xor_zero.symm
  | cons e es ih =>
      obtain ⟨⟨hj, hkept⟩, hes⟩ := List.forall_mem_cons.mp h
      obtain ⟨j, x⟩ := e
      have hcons : change buf ((j, x) :: es) = change (buf.modify j (· ^^^ x)) es := rfl
      have hsum : ∀ n, syndromes n ((j, x) :: es) = syndrome n j x ^^^ syndromes n es :=
        fun _ => rfl
      rw [hcons, hsum]
      by_cases hx : x = 0#8
      · rw [hx, modify_xor_zero, syndrome_zero, BitVec.zero_xor]
        exact ih hlen hes
      · obtain ⟨h6, h7⟩ := hkept hx
        have hann : announced (buf.modify j (· ^^^ x)) = announced buf :=
          announced_modify (· ^^^ x) h6 h7
        rw [ih (by rwa [hann, List.length_modify]) (by rwa [hann]), hann,
          residue_modify x hlen hj h6 h7, BitVec.xor_assoc]

end SafetyCopro
