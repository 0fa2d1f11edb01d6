import SafetyCopro.Lib.CrcPolynomial
import SafetyCopro.Protocol.Crc

/-!
The checksum of the protocol against the CRC-32 of IEEE 802.3 as it is defined:
by division of polynomials over GF(2). The source computes it with a shift
register, and for a frame in two segments.
-/

namespace SafetyCopro

open Polynomial

/-- The generator of CRC-32, by the bits of `0x104C11DB7` from the highest power
down. -/
noncomputable def ieeeGenerator : (ZMod 2)[X] :=
  Crc.bitPoly ((List.range 33).map fun i => Nat.testBit 0x104C11DB7 (32 - i))

/-- CRC-32 of IEEE 802.3: the bits of the message, lowest bit of a byte first, are
the coefficients of a polynomial. It is multiplied by `X ^ 32`, behind a register
preset to ones, and divided by the generator; the remainder is reflected, with
its highest power for the lowest bit, and complemented. -/
noncomputable def crc32Ieee (d : List U8) : U32 :=
  ~~~ Crc.ofPoly 32 (Crc.remainder 32 ieeeGenerator (Crc.messageBits d))

/-- The constant of the source is the generator without its highest power,
reflected. -/
theorem ieeeGenerator_eq : ieeeGenerator = Crc.generator crcPoly := by
  have hbits : ((List.range 33).map fun i => Nat.testBit 0x104C11DB7 (32 - i)) =
      true :: Crc.bitsLsb crcPoly := by decide
  rw [ieeeGenerator, hbits, Crc.generator]

theorem safetyCrc32Step_append (crc : U32) (data data' : List U8) :
    safetyCrc32Step crc (data ++ data') = safetyCrc32Step (safetyCrc32Step crc data) data' := by
  rw [safetyCrc32Step, List.foldl_append]
  rfl

/-- The shift register computes the CRC-32, and the checksum of a frame is that of
its header, with the checksum cleared, and its payload in one piece. -/
theorem safetyCrc32_correct :
    (∀ d : List U8, safetyCrc32 d = crc32Ieee d) ∧
    ∀ (hdr : SafetyFrameHeader) (payload : List U8), payload.length ≤ 256 →
      safetyFrameComputeChecksum hdr payload (BitVec.ofNat 16 payload.length) =
        safetyCrc32 ({ hdr with checksum := 0 }.toBytes ++ payload) := by
  refine ⟨fun d => ?_, fun hdr payload hlen => ?_⟩
  · have hregister := Crc.absorb_eq_remainder crcPoly (by decide : 8 ≤ 32) d
    rw [crc32Ieee, ieeeGenerator_eq, ← hregister, safetyCrc32, safetyCrc32Step_eq]
    exact BitVec.xor_allOnes
  · rw [safetyFrameComputeChecksum, toNat_payloadLength hlen, List.take_length, safetyCrc32,
      safetyCrc32Step_append]

/-- A frame with three bytes of payload. -/
theorem safetyCrc32_correct_three :
    safetyFrameComputeChecksum (safetyFrameInit 1 7 3 0) [1, 2, 3] 3 =
      safetyCrc32 ({ safetyFrameInit 1 7 3 0 with checksum := 0 }.toBytes ++ [1, 2, 3]) :=
  safetyCrc32_correct.2 (safetyFrameInit 1 7 3 0) [1, 2, 3] (by decide)

end SafetyCopro
