import SafetyCopro.Lib.Scanner
import SafetyCopro.Protocol.Wire

/-!
How a byte stream is cut into frames. Every receiver of the system hunts for
the two magic bytes, reads the header behind them and takes as many payload
bytes as it announces. They differ in what they make of the pieces, and in how
far they skip when the announced length is beyond the limit: by one byte on the
hosts, by the whole header in the firmware.
-/

namespace SafetyCopro

def magicLo : U8 := safetyProtoMagic.extractLsb' 0 8
def magicHi : U8 := safetyProtoMagic.extractLsb' 8 8

/-- The payload length a header announces. -/
def announced (buf : List U8) : Nat := (SafetyFrameHeader.ofBytes buf).payloadLength.toNat

inductive Token
  -- a byte that is not the start of a magic
  | noise (b : U8)
  -- a header that announces too long a payload
  | oversized (hdr : List U8)
  | frame (bytes : List U8)
deriving DecidableEq, Repr

def Token.wholeFrame : Token → Option (List U8)
  | .frame bytes => some bytes
  | _ => none

/-- The next token of the stream, and how far it reaches. -/
def frameStep (skip : Nat) (buf : List U8) : Option (Token × Nat) :=
  if buf.length < 2 then none
  else if u16At buf 0 ≠ safetyProtoMagic then some (.noise (byteAt buf 0), 1)
  else if buf.length < safetyHeaderSize then none
  else if announced buf > safetyMaxPayload then some (.oversized (buf.take safetyHeaderSize), skip)
  else if buf.length < safetyHeaderSize + announced buf then none
  else
    some (.frame (buf.take (safetyHeaderSize + announced buf)), safetyHeaderSize + announced buf)

/-- The bytes of one whole frame, whatever its version and checksum. -/
def IsFrame (bytes : List U8) : Prop :=
  u16At bytes 0 = safetyProtoMagic ∧ announced bytes ≤ safetyMaxPayload ∧
    bytes.length = safetyHeaderSize + announced bytes

instance (bytes : List U8) : Decidable (IsFrame bytes) := inferInstanceAs (Decidable (_ ∧ _ ∧ _))

theorem IsFrame.length_le {bytes : List U8} (h : IsFrame bytes) :
    safetyHeaderSize ≤ bytes.length ∧ bytes.length ≤ safetyMaxFrameSize := by
  obtain ⟨-, hfits, hlen⟩ := h
  have h272 : safetyMaxFrameSize = safetyHeaderSize + safetyMaxPayload := rfl
  omega

theorem announced_append_left {buf : List U8} (more : List U8)
    (h : safetyHeaderSize ≤ buf.length) : announced (buf ++ more) = announced buf := by
  rw [announced, ofBytes_append_left more h, announced]

theorem ofBytes_take {buf : List U8} {n : Nat} (hn : safetyHeaderSize ≤ n)
    (h : n ≤ buf.length) :
    SafetyFrameHeader.ofBytes (buf.take n) = SafetyFrameHeader.ofBytes buf := by
  have hlen : safetyHeaderSize ≤ (buf.take n).length := by
    rw [List.length_take]
    omega
  rw [← ofBytes_append_left (buf.drop n) hlen, List.take_append_drop]

theorem u16At_eq_magic {a b : U8} {rest : List U8} :
    u16At (a :: b :: rest) 0 = safetyProtoMagic ↔ a = magicLo ∧ b = magicHi := by
  have hu16 : u16At (a :: b :: rest) 0 = b ++ a := rfl
  rw [hu16]
  refine ⟨fun h => ⟨?_, ?_⟩, ?_⟩
  · rw [magicLo, ← h, BitVec.extractLsb'_append_eq_right]
  · rw [magicHi, ← h, BitVec.extractLsb'_append_eq_left]
  · rintro ⟨rfl, rfl⟩
    rfl

/-! ### What a step does -/

/-- Scanners differ in how far an oversized header takes them, and in nothing else. -/
theorem frameStep_skip (skip skip' : Nat) (buf : List U8) :
    frameStep skip buf =
      (frameStep skip' buf).map fun r =>
        (r.1, match r.1 with
          | .oversized _ => skip
          | _ => r.2) := by
  unfold frameStep
  repeat' split
  all_goals rfl

theorem frameStep_some {skip : Nat} {buf : List U8} {t : Token} {n : Nat}
    (h : frameStep skip buf = some (t, n)) :
    (2 ≤ buf.length ∧ u16At buf 0 ≠ safetyProtoMagic ∧ t = .noise (byteAt buf 0) ∧ n = 1) ∨
      (safetyHeaderSize ≤ buf.length ∧ u16At buf 0 = safetyProtoMagic ∧
        safetyMaxPayload < announced buf ∧ t = .oversized (buf.take safetyHeaderSize) ∧
        n = skip) ∨
      (u16At buf 0 = safetyProtoMagic ∧ announced buf ≤ safetyMaxPayload ∧
        n = safetyHeaderSize + announced buf ∧ n ≤ buf.length ∧ t = .frame (buf.take n)) := by
  unfold frameStep at h
  split at h
  · cases h
  split at h
  · rename_i hlen hmagic
    cases h
    exact Or.inl ⟨Nat.not_lt.mp hlen, hmagic, rfl, rfl⟩
  rename_i hmagic
  have hmagic := Decidable.not_not.mp hmagic
  split at h
  · cases h
  split at h
  · rename_i hhdr hlong
    cases h
    exact Or.inr (Or.inl ⟨Nat.not_lt.mp hhdr, hmagic, hlong, rfl, rfl⟩)
  split at h
  · cases h
  · rename_i hlong htotal
    cases h
    exact Or.inr (Or.inr ⟨hmagic, Nat.not_lt.mp hlong, rfl, Nat.not_lt.mp htotal, rfl⟩)

theorem frameStep_none {skip : Nat} {buf : List U8} (h : frameStep skip buf = none) :
    buf.length < 2 ∨
      (2 ≤ buf.length ∧ u16At buf 0 = safetyProtoMagic ∧ buf.length < safetyHeaderSize) ∨
      (safetyHeaderSize ≤ buf.length ∧ u16At buf 0 = safetyProtoMagic ∧
        announced buf ≤ safetyMaxPayload ∧ buf.length < safetyHeaderSize + announced buf) := by
  unfold frameStep at h
  split at h
  · exact Or.inl ‹_›
  rename_i hlen
  split at h
  · cases h
  rename_i hmagic
  have hmagic := Decidable.not_not.mp hmagic
  split at h
  · exact Or.inr (Or.inl ⟨Nat.not_lt.mp hlen, hmagic, ‹_›⟩)
  rename_i hhdr
  split at h
  · cases h
  rename_i hlong
  split at h
  · exact Or.inr (Or.inr ⟨Nat.not_lt.mp hhdr, hmagic, Nat.not_lt.mp hlong, ‹_›⟩)
  · cases h

/-- What a receiver keeps is less than the longest frame. -/
theorem length_of_frameStep_none {skip : Nat} {buf : List U8} (h : frameStep skip buf = none) :
    buf.length < safetyMaxFrameSize := by
  have h256 : safetyMaxPayload = 256 := rfl
  have h16 : safetyHeaderSize = 16 := rfl
  have h272 : safetyMaxFrameSize = 272 := rfl
  obtain hlen | ⟨-, -, hlen⟩ | ⟨-, -, hlong, hlen⟩ := frameStep_none h <;> omega

theorem frameStep_short (skip : Nat) {buf : List U8} (h : buf.length < 2) :
    frameStep skip buf = none := by
  rw [frameStep, if_pos h]

theorem frameStep_nil (skip : Nat) : frameStep skip [] = none := rfl

theorem frameStep_header (skip : Nat) {buf : List U8} (hmagic : u16At buf 0 = safetyProtoMagic)
    (h : buf.length < safetyHeaderSize) : frameStep skip buf = none := by
  rw [frameStep, if_neg (not_not_intro hmagic), if_pos h, ite_self]

theorem frameStep_payload (skip : Nat) {buf : List U8} (hlen : safetyHeaderSize ≤ buf.length)
    (hmagic : u16At buf 0 = safetyProtoMagic) (hfits : announced buf ≤ safetyMaxPayload)
    (h : buf.length < safetyHeaderSize + announced buf) : frameStep skip buf = none := by
  rw [frameStep, if_neg (not_not_intro hmagic), if_neg (Nat.not_lt.mpr hlen),
    if_neg (Nat.not_lt.mpr hfits), if_pos h, ite_self]

theorem frameStep_noise (skip : Nat) {a b : U8} {rest : List U8}
    (h : ¬ (a = magicLo ∧ b = magicHi)) :
    frameStep skip (a :: b :: rest) = some (.noise a, 1) := by
  have hmagic : u16At (a :: b :: rest) 0 ≠ safetyProtoMagic := mt u16At_eq_magic.mp h
  rw [frameStep, if_neg (by simp), if_pos hmagic]
  rfl

theorem frameStep_oversized (skip : Nat) {buf : List U8} (hlen : safetyHeaderSize ≤ buf.length)
    (hmagic : u16At buf 0 = safetyProtoMagic) (hlong : safetyMaxPayload < announced buf) :
    frameStep skip buf = some (.oversized (buf.take safetyHeaderSize), skip) := by
  have h16 : safetyHeaderSize = 16 := rfl
  rw [frameStep, if_neg (by omega), if_neg (not_not_intro hmagic), if_neg (by omega),
    if_pos hlong]

theorem frameStep_frame (skip : Nat) {bytes : List U8} (h : IsFrame bytes) (rest : List U8) :
    frameStep skip (bytes ++ rest) = some (.frame bytes, bytes.length) := by
  obtain ⟨hmagic, hfits, hlen⟩ := h
  have h16 : safetyHeaderSize = 16 := rfl
  have hann : announced (bytes ++ rest) = announced bytes :=
    announced_append_left rest (by omega)
  have hmagic' : u16At (bytes ++ rest) 0 = safetyProtoMagic := by
    rw [u16At_append_left rest (by omega), hmagic]
  have htake : (bytes ++ rest).take bytes.length = bytes := List.take_left
  rw [frameStep, hann, ← hlen, htake, List.length_append, if_neg (by omega),
    if_neg (not_not_intro hmagic'), if_neg (by omega), if_neg (Nat.not_lt.mpr hfits),
    if_neg (by omega)]

theorem isFrame_take {buf : List U8} (hmagic : u16At buf 0 = safetyProtoMagic)
    (hfits : announced buf ≤ safetyMaxPayload)
    (hlen : safetyHeaderSize + announced buf ≤ buf.length) :
    IsFrame (buf.take (safetyHeaderSize + announced buf)) := by
  have h16 : safetyHeaderSize = 16 := rfl
  have hof := ofBytes_take (n := safetyHeaderSize + announced buf) (Nat.le_add_right _ _) hlen
  have hann : announced (buf.take (safetyHeaderSize + announced buf)) = announced buf := by
    rw [announced, hof, announced]
  refine ⟨?_, ?_, ?_⟩
  · exact (congrArg SafetyFrameHeader.magic hof).trans hmagic
  · rw [hann]
    exact hfits
  · rw [hann, List.length_take]
    omega

theorem isFrame_of_frameStep {skip : Nat} {buf bytes : List U8} {n : Nat}
    (h : frameStep skip buf = some (.frame bytes, n)) :
    IsFrame bytes ∧ bytes = buf.take n := by
  obtain ⟨-, -, ht, -⟩ | ⟨-, -, -, ht, -⟩ | ⟨hmagic, hfits, rfl, hlen, ht⟩ := frameStep_some h
  · cases ht
  · cases ht
  · obtain rfl := Token.frame.inj ht
    exact ⟨isFrame_take hmagic hfits hlen, rfl⟩

/-- A whole frame can only have the wrong version or the wrong checksum. -/
theorem safetyFrameValidate_isFrame {bytes : List U8} (h : IsFrame bytes) :
    safetyFrameValidate bytes =
      if (SafetyFrameHeader.ofBytes bytes).version ≠ safetyProtoVersion then .badVersion
      else if safetyFrameComputeChecksum (.ofBytes bytes) (bytes.drop safetyHeaderSize)
          (SafetyFrameHeader.ofBytes bytes).payloadLength
            ≠ (SafetyFrameHeader.ofBytes bytes).checksum then .badChecksum
      else .ok := by
  obtain ⟨hmagic, hfits, hlen⟩ := h
  have hmagic' : (SafetyFrameHeader.ofBytes bytes).magic = safetyProtoMagic := hmagic
  have hann : (SafetyFrameHeader.ofBytes bytes).payloadLength.toNat = announced bytes := rfl
  simp only [safetyFrameValidate, hmagic', hann, hlen]
  rw [if_neg (by omega), if_neg (not_not_intro rfl), if_neg (Nat.not_lt.mpr hfits),
    if_neg (Nat.lt_irrefl _)]

theorem validate_ne_badLength {bytes : List U8} (h : IsFrame bytes) :
    safetyFrameValidate bytes ≠ .badLength := by
  rw [safetyFrameValidate_isFrame h]
  split
  · exact SafetyValidateResult.noConfusion
  split
  · exact SafetyValidateResult.noConfusion
  · exact SafetyValidateResult.noConfusion

/-- Bytes that come later change no decision. -/
theorem incremental_frameStep {skip : Nat} (hpos : 0 < skip) (hle : skip ≤ safetyHeaderSize) :
    Scanner.Incremental (frameStep skip) where
  progress := by
    intro buf t n h
    have h16 : safetyHeaderSize = 16 := rfl
    obtain ⟨hlen, -, -, rfl⟩ | ⟨hlen, -, -, -, rfl⟩ | ⟨-, -, rfl, hlen, -⟩ := frameStep_some h <;>
      omega
  stable := by
    intro buf r h more
    have h16 : safetyHeaderSize = 16 := rfl
    obtain ⟨t, n⟩ := r
    obtain ⟨hlen, hmagic, rfl, rfl⟩ | ⟨hlen, hmagic, hlong, rfl, rfl⟩ |
      ⟨hmagic, hfits, rfl, hlen, rfl⟩ := frameStep_some h
    · obtain ⟨a, b, rest, rfl⟩ : ∃ a b rest, buf = a :: b :: rest := by
        obtain _ | ⟨a, _ | ⟨b, rest⟩⟩ := buf
        · simp at hlen
        · simp at hlen
        · exact ⟨a, b, rest, rfl⟩
      exact frameStep_noise skip (mt u16At_eq_magic.mpr hmagic)
    · have hmagic' : u16At (buf ++ more) 0 = safetyProtoMagic := by
        rw [u16At_append_left more (by omega), hmagic]
      have hlen' : safetyHeaderSize ≤ (buf ++ more).length := by
        rw [List.length_append]
        omega
      rw [frameStep_oversized n hlen' hmagic' (by rwa [announced_append_left more hlen]),
        List.take_append_of_le_length hlen]
    · have hframe := isFrame_take hmagic hfits hlen
      have hsplit : buf ++ more = buf.take (safetyHeaderSize + announced buf) ++
          (buf.drop (safetyHeaderSize + announced buf) ++ more) := by
        rw [← List.append_assoc, List.take_append_drop]
      rw [hsplit, frameStep_frame skip hframe, List.length_take, Nat.min_eq_left hlen]

theorem incremental_host : Scanner.Incremental (frameStep 1) :=
  incremental_frameStep Nat.one_pos (by decide)

end SafetyCopro
