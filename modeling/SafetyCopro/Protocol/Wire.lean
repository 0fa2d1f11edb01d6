import Mathlib.Data.List.Basic

/-!
The shared wire format of `safety_protocol.h`: the packed header, the CRC-32
both ends run, and the pack and validate helpers. All hosts are little-endian,
as the header file states, so a `memcpy` of the header is its byte list.
-/

namespace SafetyCopro

abbrev U8 := BitVec 8
abbrev U16 := BitVec 16
abbrev U32 := BitVec 32

def safetyProtoMagic : U16 := 0x5346
def safetyProtoVersion : U8 := 0x01
def safetyMaxPayload : Nat := 256
def safetyHeaderSize : Nat := 16
def safetyMaxFrameSize : Nat := safetyHeaderSize + safetyMaxPayload

/-! `header.type` stays a byte: a receiver sees every value of it. -/

def safetyFrameHeartbeat : U8 := 0x01
def safetyFrameTelemetry : U8 := 0x02
def safetyFrameFaultEvent : U8 := 0x03
def safetyFrameCommand : U8 := 0x04
def safetyFrameAck : U8 := 0x05
def safetyFrameNack : U8 := 0x06
def safetyFrameRecoveryReport : U8 := 0x07

def safetyCmdGetStatus : U8 := 0x01
def safetyCmdInjectFault : U8 := 0x02
def safetyCmdRequestRecovery : U8 := 0x03
def safetyCmdEnterSafeMode : U8 := 0x04
def safetyCmdResetFaultState : U8 := 0x05

def safetyFaultNone : U8 := 0x00
def safetyFaultTaskHang : U8 := 0x01
def safetyFaultChecksumError : U8 := 0x02
def safetyFaultCritical : U8 := 0x03

def safetyNackChecksum : U8 := 0x01
def safetyNackUnknownType : U8 := 0x04
def safetyNackPayload : U8 := 0x05

/-! Little-endian fields. -/

def le16 (x : U16) : List U8 := [x.extractLsb' 0 8, x.extractLsb' 8 8]

def le32 (x : U32) : List U8 :=
  [x.extractLsb' 0 8, x.extractLsb' 8 8, x.extractLsb' 16 8, x.extractLsb' 24 8]

/-- A byte of a buffer. The code bounds-checks every offset before it reads. -/
def byteAt (buf : List U8) (i : Nat) : U8 := buf.getD i 0

def u16At (buf : List U8) (i : Nat) : U16 := byteAt buf (i + 1) ++ byteAt buf i

def u32At (buf : List U8) (i : Nat) : U32 := u16At buf (i + 2) ++ u16At buf i

structure SafetyFrameHeader where
  magic : U16
  version : U8
  type : U8
  sequenceId : U16
  payloadLength : U16
  timestampMs : U32
  checksum : U32
deriving DecidableEq, Repr

namespace SafetyFrameHeader

def toBytes (hdr : SafetyFrameHeader) : List U8 :=
  le16 hdr.magic ++ [hdr.version, hdr.type] ++ le16 hdr.sequenceId ++
    le16 hdr.payloadLength ++ le32 hdr.timestampMs ++ le32 hdr.checksum

def ofBytes (buf : List U8) : SafetyFrameHeader where
  magic := u16At buf 0
  version := byteAt buf 2
  type := byteAt buf 3
  sequenceId := u16At buf 4
  payloadLength := u16At buf 6
  timestampMs := u32At buf 8
  checksum := u32At buf 12

end SafetyFrameHeader

/-! Bytes behind the fields do not matter. -/

theorem byteAt_append_left {buf : List U8} (more : List U8) {i : Nat} (h : i < buf.length) :
    byteAt (buf ++ more) i = byteAt buf i := by
  simp [byteAt, List.getD, List.getElem?_append_left h]

theorem u16At_append_left {buf : List U8} (more : List U8) {i : Nat} (h : i + 1 < buf.length) :
    u16At (buf ++ more) i = u16At buf i := by
  rw [u16At, u16At, byteAt_append_left more h, byteAt_append_left more (by omega)]

theorem u32At_append_left {buf : List U8} (more : List U8) {i : Nat} (h : i + 3 < buf.length) :
    u32At (buf ++ more) i = u32At buf i := by
  rw [u32At, u32At, u16At_append_left more (by omega), u16At_append_left more (by omega)]

theorem ofBytes_append_left {buf : List U8} (more : List U8) (h : safetyHeaderSize ≤ buf.length) :
    SafetyFrameHeader.ofBytes (buf ++ more) = SafetyFrameHeader.ofBytes buf := by
  have h16 : 16 ≤ buf.length := h
  simp (disch := omega) only [SafetyFrameHeader.ofBytes, u16At_append_left, u32At_append_left,
    byteAt_append_left]

/-! The packed payload structures, as the bytes a `memcpy` of them gives. -/

def safetyHeartbeatPayload (uptimeMs beatSeq : U32) : List U8 := le32 uptimeMs ++ le32 beatSeq

def safetyTelemetryPayload (temperatureCX10 voltageMv cpuLoadPct faultCount : U16) : List U8 :=
  le16 temperatureCX10 ++ le16 voltageMv ++ le16 cpuLoadPct ++ le16 faultCount

def safetyFaultEventPayload (faultType severity : U8) (detailCode : U16)
    (faultUptimeMs : U32) : List U8 :=
  [faultType, severity] ++ le16 detailCode ++ le32 faultUptimeMs

def safetyCommandPayload (command arg8 : U8) (arg16 : U16) (arg32 : U32) : List U8 :=
  [command, arg8] ++ le16 arg16 ++ le32 arg32

def safetyAckPayload (ackedSequenceId : U16) : List U8 := le16 ackedSequenceId ++ le16 0

def safetyNackPayloadBytes (nackedSequenceId : U16) (reason : U8) : List U8 :=
  le16 nackedSequenceId ++ [reason, 0]

def safetyRecoveryReportPayload (recovered newState : U8) (recoveryUptimeMs : U32) : List U8 :=
  [recovered, newState] ++ le16 0 ++ le32 recoveryUptimeMs

/-- One shift of the reflected register; the mask is `-(crc & 1)`. -/
def crc32Shift (crc : U32) : U32 :=
  (crc >>> 1) ^^^ (0xEDB88320#32 &&& (~~~(crc &&& 1#32) + 1#32))

def safetyCrc32Step (crc : U32) (data : List U8) : U32 :=
  data.foldl (fun crc p => Nat.repeat crc32Shift 8 (crc ^^^ p.setWidth 32)) crc

def safetyCrc32 (data : List U8) : U32 :=
  safetyCrc32Step 0xFFFFFFFF#32 data ^^^ 0xFFFFFFFF#32

/-- `payload` is the buffer behind the pointer; the CRC covers its first
`payloadLen` bytes. A null pointer is the empty buffer. -/
def safetyFrameComputeChecksum (hdr : SafetyFrameHeader) (payload : List U8)
    (payloadLen : U16) : U32 :=
  let crc := safetyCrc32Step 0xFFFFFFFF#32 { hdr with checksum := 0 }.toBytes
  safetyCrc32Step crc (payload.take payloadLen.toNat) ^^^ 0xFFFFFFFF#32

def safetyFrameInit (type : U8) (sequenceId payloadLen : U16) (tsMs : U32) :
    SafetyFrameHeader where
  magic := safetyProtoMagic
  version := safetyProtoVersion
  type := type
  sequenceId := sequenceId
  payloadLength := payloadLen
  timestampMs := tsMs
  checksum := 0

/-- The bytes written to `out`; none when the payload is too long and the
source returns 0. -/
def safetyFramePack (hdr : SafetyFrameHeader) (payload : List U8) : Option (List U8) :=
  if hdr.payloadLength.toNat > safetyMaxPayload then none
  else
    let hdr := { hdr with
      checksum := safetyFrameComputeChecksum hdr payload hdr.payloadLength }
    some (hdr.toBytes ++ payload.take hdr.payloadLength.toNat)

inductive SafetyValidateResult
  | ok | badMagic | badVersion | badLength | badChecksum
deriving DecidableEq, Repr

def SafetyValidateResult.code : SafetyValidateResult → Nat
  | .ok => 0
  | .badMagic => 1
  | .badVersion => 2
  | .badLength => 3
  | .badChecksum => 4

def safetyFrameValidate (buf : List U8) : SafetyValidateResult :=
  if buf.length < safetyHeaderSize then .badLength
  else
    let hdr := SafetyFrameHeader.ofBytes buf
    if hdr.magic ≠ safetyProtoMagic then .badMagic
    else if hdr.version ≠ safetyProtoVersion then .badVersion
    else if hdr.payloadLength.toNat > safetyMaxPayload then .badLength
    else if buf.length < safetyHeaderSize + hdr.payloadLength.toNat then .badLength
    else if safetyFrameComputeChecksum hdr (buf.drop safetyHeaderSize) hdr.payloadLength
        ≠ hdr.checksum then .badChecksum
    else .ok

theorem append_extract16 (x : U16) : x.extractLsb' 8 8 ++ x.extractLsb' 0 8 = x := by
  ext i hi
  simp only [BitVec.getElem_append, BitVec.getElem_extractLsb']
  grind

theorem append_extract32 (x : U32) :
    ((x.extractLsb' 24 8 ++ x.extractLsb' 16 8 : U16) ++
      (x.extractLsb' 8 8 ++ x.extractLsb' 0 8 : U16) : U32) = x := by
  ext i hi
  simp only [BitVec.getElem_append, BitVec.getElem_extractLsb']
  grind

@[simp] theorem toBytes_length (hdr : SafetyFrameHeader) :
    hdr.toBytes.length = safetyHeaderSize := rfl

@[simp] theorem ofBytes_toBytes_append (hdr : SafetyFrameHeader) (rest : List U8) :
    SafetyFrameHeader.ofBytes (hdr.toBytes ++ rest) = hdr := by
  obtain ⟨magic, version, type, seq, len, ts, checksum⟩ := hdr
  rw [SafetyFrameHeader.ofBytes, SafetyFrameHeader.mk.injEq]
  exact ⟨append_extract16 magic, rfl, rfl, append_extract16 seq, append_extract16 len,
    append_extract32 ts, append_extract32 checksum⟩

theorem computeChecksum_append (hdr : SafetyFrameHeader) (payload rest : List U8)
    {payloadLen : U16} (h : payloadLen.toNat ≤ payload.length) :
    safetyFrameComputeChecksum hdr (payload ++ rest) payloadLen =
      safetyFrameComputeChecksum hdr payload payloadLen := by
  simp only [safetyFrameComputeChecksum, List.take_append_of_le_length h]

/-- A packed frame: the header `safety_frame_init` fills, sealed with its
checksum, followed by the payload. -/
def sealedHeader (type : U8) (sequenceId : U16) (tsMs : U32) (payload : List U8) :
    SafetyFrameHeader :=
  let hdr := safetyFrameInit type sequenceId (BitVec.ofNat 16 payload.length) tsMs
  { hdr with checksum := safetyFrameComputeChecksum hdr payload hdr.payloadLength }

theorem toNat_payloadLength {payload : List U8} (h : payload.length ≤ safetyMaxPayload) :
    (BitVec.ofNat 16 payload.length).toNat = payload.length := by
  rw [BitVec.toNat_ofNat]
  exact Nat.mod_eq_of_lt (Nat.lt_of_le_of_lt h (by decide))

theorem safetyFramePack_init (type : U8) (sequenceId : U16) (tsMs : U32) {payload : List U8}
    (h : payload.length ≤ safetyMaxPayload) :
    safetyFramePack (safetyFrameInit type sequenceId (BitVec.ofNat 16 payload.length) tsMs)
        payload =
      some ((sealedHeader type sequenceId tsMs payload).toBytes ++ payload) := by
  have hlen := toNat_payloadLength h
  have hshort : ¬ safetyMaxPayload < payload.length := Nat.not_lt.mpr h
  simp only [safetyFramePack, safetyFrameInit, hlen, gt_iff_lt, hshort, if_false,
    List.take_length, sealedHeader]

theorem safetyFrameValidate_sealed (type : U8) (sequenceId : U16) (tsMs : U32)
    {payload : List U8} (h : payload.length ≤ safetyMaxPayload) (rest : List U8) :
    safetyFrameValidate ((sealedHeader type sequenceId tsMs payload).toBytes ++ (payload ++ rest))
      = .ok := by
  have hlen : (sealedHeader type sequenceId tsMs payload).payloadLength.toNat = payload.length :=
    toNat_payloadLength h
  have hdrop : ((sealedHeader type sequenceId tsMs payload).toBytes ++ (payload ++ rest)).drop
      safetyHeaderSize = payload ++ rest := List.drop_left' rfl
  have hsum : safetyFrameComputeChecksum (sealedHeader type sequenceId tsMs payload)
      (payload ++ rest) (sealedHeader type sequenceId tsMs payload).payloadLength =
        (sealedHeader type sequenceId tsMs payload).checksum := by
    rw [computeChecksum_append _ _ _ (Nat.le_of_eq hlen)]
    rfl
  have hmagic : (sealedHeader type sequenceId tsMs payload).magic = safetyProtoMagic := rfl
  have hversion : (sealedHeader type sequenceId tsMs payload).version = safetyProtoVersion := rfl
  simp only [safetyFrameValidate, ofBytes_toBytes_append, hdrop, hsum, hmagic, hversion, hlen,
    List.length_append, toBytes_length, ne_eq, not_true_eq_false, if_false, gt_iff_lt]
  rw [if_neg (by omega), if_neg (by omega), if_neg (by omega)]

end SafetyCopro
