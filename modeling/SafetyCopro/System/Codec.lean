import SafetyCopro.Protocol.Validate
import SafetyCopro.Supervisor.Frames

/-!
The codec both ends share. Packing and validating are inverse to each other,
and the supervisor's own encoder writes the bytes of the shared one.
-/

namespace SafetyCopro

theorem safetyFramePack_too_long {hdr : SafetyFrameHeader} (payload : List U8)
    (h : safetyMaxPayload < hdr.payloadLength.toNat) : safetyFramePack hdr payload = none := by
  rw [safetyFramePack, if_pos h]

theorem safetyFramePack_packFrame (type : U8) (seq : U16) (tsMs : U32) {payload : List U8}
    (h : payload.length ≤ safetyMaxPayload) :
    safetyFramePack (safetyFrameInit type seq (BitVec.ofNat 16 payload.length) tsMs) payload =
      some (packFrame type seq tsMs payload) :=
  safetyFramePack_init type seq tsMs h

/-- What was packed is accepted and reads back, with any bytes behind it. -/
theorem packFrame_reads_back (type : U8) (seq : U16) (tsMs : U32) {payload : List U8}
    (h : payload.length ≤ safetyMaxPayload) (t : List U8) :
    safetyFrameValidate (packFrame type seq tsMs payload ++ t) = .ok ∧
      SafetyFrameHeader.ofBytes (packFrame type seq tsMs payload ++ t) =
        sealedHeader type seq tsMs payload ∧
      ((packFrame type seq tsMs payload ++ t).drop safetyHeaderSize).take payload.length =
        payload := by
  rw [packFrame, List.append_assoc, List.drop_left' (toBytes_length _)]
  exact ⟨safetyFrameValidate_sealed type seq tsMs h t, ofBytes_toBytes_append _ _, List.take_left⟩

/-- Frames and accepted byte strings correspond, and both encoders agree. -/
theorem codec_bijection :
    (∀ type seq tsMs (payload t : List U8), payload.length ≤ safetyMaxPayload →
      ∃ frame, safetyFramePack
          (safetyFrameInit type seq (BitVec.ofNat 16 payload.length) tsMs) payload = some frame ∧
        safetyFrameValidate (frame ++ t) = .ok ∧
        (let hdr := SafetyFrameHeader.ofBytes (frame ++ t)
        hdr.magic = safetyProtoMagic ∧ hdr.version = safetyProtoVersion ∧ hdr.type = type ∧
          hdr.sequenceId = seq ∧ hdr.timestampMs = tsMs ∧
          hdr.payloadLength.toNat = payload.length ∧
          ((frame ++ t).drop safetyHeaderSize).take hdr.payloadLength.toNat = payload)) ∧
    (∀ (hdr : SafetyFrameHeader) (payload : List U8),
      safetyMaxPayload < hdr.payloadLength.toNat → safetyFramePack hdr payload = none) ∧
    (∀ buf, safetyFrameValidate buf = .ok →
      let hdr := SafetyFrameHeader.ofBytes buf
      safetyFramePack
          (safetyFrameInit hdr.type hdr.sequenceId hdr.payloadLength hdr.timestampMs)
          ((buf.drop safetyHeaderSize).take hdr.payloadLength.toNat) =
        some (buf.take (safetyHeaderSize + hdr.payloadLength.toNat))) ∧
    (∀ type seq tsMs (payload : List U8), payload.length ≤ safetyMaxPayload →
      safetyFramePack (safetyFrameInit type seq (BitVec.ofNat 16 payload.length) tsMs) payload =
        some (packFrame type seq tsMs payload)) := by
  refine ⟨fun type seq tsMs payload t h => ?_, fun hdr payload => safetyFramePack_too_long payload,
    fun buf h => ?_, fun type seq tsMs payload => safetyFramePack_packFrame type seq tsMs⟩
  · obtain ⟨hvalid, hhdr, hpayload⟩ := packFrame_reads_back type seq tsMs h t
    have hlen : (sealedHeader type seq tsMs payload).payloadLength.toNat = payload.length :=
      toNat_payloadLength h
    refine ⟨packFrame type seq tsMs payload, safetyFramePack_packFrame type seq tsMs h, hvalid, ?_⟩
    rw [hhdr]
    exact ⟨rfl, rfl, rfl, rfl, rfl, hlen, by rw [hlen, hpayload]⟩
  · have hframe := safetyFramePack_of_accepted (safetyFrameValidate_ok_iff.mp h)
    exact (safetyFramePack_take _).trans hframe

theorem codec_bijection_magic_payload :
    [magicLo, magicHi].length ≤ safetyMaxPayload ∧
      safetyFramePack (safetyFrameInit safetyFrameHeartbeat 0xFFFF 2 0) [magicLo, magicHi] =
        some (packFrame safetyFrameHeartbeat 0xFFFF 0 [magicLo, magicHi]) :=
  ⟨by decide, codec_bijection.2.2.2 safetyFrameHeartbeat 0xFFFF 0 [magicLo, magicHi] (by decide)⟩

end SafetyCopro
