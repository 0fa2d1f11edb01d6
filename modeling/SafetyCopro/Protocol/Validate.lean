import SafetyCopro.Protocol.Wire

/-!
What `safety_frame_validate` accepts. A buffer it accepts starts with the bytes
`safety_frame_pack` writes for the fields and the payload it reads there.
-/

namespace SafetyCopro

/-! ### The header's bytes -/

theorem le16_append (lo hi : U8) : le16 (hi ++ lo) = [lo, hi] := by
  rw [le16, BitVec.extractLsb'_append_eq_right, BitVec.extractLsb'_append_eq_left]

theorem le16_u16At (buf : List U8) (i : Nat) :
    le16 (u16At buf i) = [byteAt buf i, byteAt buf (i + 1)] :=
  le16_append _ _

theorem le32_append (lo hi : U16) : le32 (hi ++ lo) = le16 lo ++ le16 hi := by
  have hbytes : le32 (hi ++ lo) =
      [(hi ++ lo).extractLsb' 0 8, (hi ++ lo).extractLsb' 8 8, (hi ++ lo).extractLsb' 16 8,
        (hi ++ lo).extractLsb' 24 8] := rfl
  rw [hbytes, BitVec.extractLsb'_append_eq_of_add_le (by decide),
    BitVec.extractLsb'_append_eq_of_add_le (by decide),
    BitVec.extractLsb'_append_eq_of_le (by decide),
    BitVec.extractLsb'_append_eq_of_le (by decide)]
  rfl

theorem le32_u32At (buf : List U8) (i : Nat) :
    le32 (u32At buf i) =
      [byteAt buf i, byteAt buf (i + 1), byteAt buf (i + 2), byteAt buf (i + 3)] := by
  rw [u32At, le32_append, le16_u16At, le16_u16At]
  rfl

theorem take_eq_map_byteAt {buf : List U8} {n : Nat} (h : n ≤ buf.length) :
    buf.take n = (List.range n).map (byteAt buf) := by
  refine List.ext_getElem ?_ fun i hi hi' => ?_
  · rw [List.length_take, Nat.min_eq_left h, List.length_map, List.length_range]
  · rw [List.getElem_take, List.getElem_map, List.getElem_range]
    rw [List.length_take] at hi
    exact List.getElem_eq_getD 0

/-- A header is its sixteen bytes. -/
theorem toBytes_ofBytes {buf : List U8} (h : safetyHeaderSize ≤ buf.length) :
    (SafetyFrameHeader.ofBytes buf).toBytes = buf.take safetyHeaderSize := by
  rw [take_eq_map_byteAt h]
  simp only [SafetyFrameHeader.toBytes, SafetyFrameHeader.ofBytes, le16_u16At, le32_u32At]
  rfl

/-! ### Acceptance -/

/-- The conditions `safety_frame_validate` checks, in its order. -/
structure Accepted (buf : List U8) : Prop where
  header : safetyHeaderSize ≤ buf.length
  magic : (SafetyFrameHeader.ofBytes buf).magic = safetyProtoMagic
  version : (SafetyFrameHeader.ofBytes buf).version = safetyProtoVersion
  fits : (SafetyFrameHeader.ofBytes buf).payloadLength.toNat ≤ safetyMaxPayload
  whole : safetyHeaderSize + (SafetyFrameHeader.ofBytes buf).payloadLength.toNat ≤ buf.length
  checksum : safetyFrameComputeChecksum (.ofBytes buf) (buf.drop safetyHeaderSize)
    (SafetyFrameHeader.ofBytes buf).payloadLength = (SafetyFrameHeader.ofBytes buf).checksum

theorem safetyFrameValidate_ok_iff {buf : List U8} :
    safetyFrameValidate buf = .ok ↔ Accepted buf := by
  constructor
  · intro h
    simp only [safetyFrameValidate] at h
    split at h
    · cases h
    rename_i hheader
    split at h
    · cases h
    rename_i hmagic
    split at h
    · cases h
    rename_i hversion
    split at h
    · cases h
    rename_i hfits
    split at h
    · cases h
    rename_i hwhole
    split at h
    · cases h
    rename_i hsum
    exact ⟨Nat.not_lt.mp hheader, Decidable.not_not.mp hmagic, Decidable.not_not.mp hversion,
      Nat.not_lt.mp hfits, Nat.not_lt.mp hwhole, Decidable.not_not.mp hsum⟩
  · rintro ⟨hheader, hmagic, hversion, hfits, hwhole, hsum⟩
    rw [safetyFrameValidate, if_neg (Nat.not_lt.mpr hheader)]
    simp only [hmagic, hversion, hsum, ne_eq, not_true_eq_false, if_false, gt_iff_lt,
      Nat.not_lt.mpr hfits, Nat.not_lt.mpr hwhole]

theorem safetyFrameValidate_badChecksum {buf : List U8} (hheader : safetyHeaderSize ≤ buf.length)
    (hmagic : (SafetyFrameHeader.ofBytes buf).magic = safetyProtoMagic)
    (hversion : (SafetyFrameHeader.ofBytes buf).version = safetyProtoVersion)
    (hfits : (SafetyFrameHeader.ofBytes buf).payloadLength.toNat ≤ safetyMaxPayload)
    (hwhole : safetyHeaderSize + (SafetyFrameHeader.ofBytes buf).payloadLength.toNat ≤ buf.length)
    (hsum : safetyFrameComputeChecksum (.ofBytes buf) (buf.drop safetyHeaderSize)
      (SafetyFrameHeader.ofBytes buf).payloadLength ≠ (SafetyFrameHeader.ofBytes buf).checksum) :
    safetyFrameValidate buf = .badChecksum := by
  rw [safetyFrameValidate, if_neg (Nat.not_lt.mpr hheader)]
  simp only [hmagic, hversion, ne_eq, not_true_eq_false, if_false, gt_iff_lt,
    Nat.not_lt.mpr hfits, Nat.not_lt.mpr hwhole, hsum, not_false_eq_true, if_true]

theorem safetyFramePack_take {hdr : SafetyFrameHeader} (payload : List U8) :
    safetyFramePack hdr (payload.take hdr.payloadLength.toNat) = safetyFramePack hdr payload := by
  simp only [safetyFramePack, safetyFrameComputeChecksum, List.take_take, Nat.min_self]

/-- Repacking what an accepted buffer says gives the frame it starts with. -/
theorem safetyFramePack_of_accepted {buf : List U8} (h : Accepted buf) :
    let hdr := SafetyFrameHeader.ofBytes buf
    safetyFramePack (safetyFrameInit hdr.type hdr.sequenceId hdr.payloadLength hdr.timestampMs)
        (buf.drop safetyHeaderSize) =
      some (buf.take (safetyHeaderSize + hdr.payloadLength.toNat)) := by
  intro hdr
  have hinit : safetyFrameInit hdr.type hdr.sequenceId hdr.payloadLength hdr.timestampMs =
      { hdr with checksum := 0 } := by
    rw [safetyFrameInit, ← h.magic, ← h.version]
  have hseal : { { hdr with checksum := 0 } with
      checksum := safetyFrameComputeChecksum { hdr with checksum := 0 }
        (buf.drop safetyHeaderSize) hdr.payloadLength } = hdr :=
    congrArg (fun sum => { hdr with checksum := sum }) h.checksum
  rw [hinit, safetyFramePack, if_neg (Nat.not_lt.mpr h.fits), List.take_add]
  simp only [hseal]
  rw [toBytes_ofBytes h.header]

end SafetyCopro
