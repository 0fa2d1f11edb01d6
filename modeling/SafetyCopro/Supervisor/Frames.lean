import SafetyCopro.Protocol.Streams
import SafetyCopro.Supervisor.EventLog

/-!
The protocol wrapper of the supervisor, `protocol.cpp`: parsed frames, the
streaming assembler, the frame builders and the duplicate detector.
-/

namespace SafetyCopro

structure ParsedFrame where
  header : SafetyFrameHeader
  payload : List U8
  validateResult : SafetyValidateResult
deriving DecidableEq, Repr

namespace ParsedFrame

def ok (f : ParsedFrame) : Prop := f.validateResult = .ok
def type (f : ParsedFrame) : U8 := f.header.type
def seq (f : ParsedFrame) : U16 := f.header.sequenceId
def tsMs (f : ParsedFrame) : U32 := f.header.timestampMs

instance (f : ParsedFrame) : Decidable f.ok := inferInstanceAs (Decidable (_ = _))

/-- `static_cast<int64_t>(f.ts_ms())`. -/
def ts (f : ParsedFrame) : I64 := f.tsMs.setWidth 64

/-- `f.seq()` stored in an `int`. -/
def seqInt (f : ParsedFrame) : I32 := f.seq.setWidth 32

/-- The fault type and severity of a `SafetyFaultEventPayload`; both stay 0
when the payload is shorter than the structure. -/
def faultType (f : ParsedFrame) : U8 := if 8 ≤ f.payload.length then byteAt f.payload 0 else 0
def severity (f : ParsedFrame) : U8 := if 8 ≤ f.payload.length then byteAt f.payload 1 else 0

/-- The frame a buffer of one header and its payload parses to. -/
def ofBytes (buf : List U8) : ParsedFrame where
  header := SafetyFrameHeader.ofBytes buf
  payload := buf.drop safetyHeaderSize
  validateResult := safetyFrameValidate buf

end ParsedFrame

def frameTypeName (type : U8) : Text :=
  if type = safetyFrameHeartbeat then Text.lit "HEARTBEAT"
  else if type = safetyFrameTelemetry then Text.lit "TELEMETRY"
  else if type = safetyFrameFaultEvent then Text.lit "FAULT_EVENT"
  else if type = safetyFrameCommand then Text.lit "COMMAND"
  else if type = safetyFrameAck then Text.lit "ACK"
  else if type = safetyFrameNack then Text.lit "NACK"
  else if type = safetyFrameRecoveryReport then Text.lit "RECOVERY_REPORT"
  else []

def faultTypeName (fault : U8) : Text :=
  if fault = safetyFaultNone then Text.lit "NONE"
  else if fault = safetyFaultTaskHang then Text.lit "HEARTBEAT_STOP"
  else if fault = safetyFaultChecksumError then Text.lit "CHECKSUM_ERROR"
  else if fault = safetyFaultCritical then Text.lit "CRITICAL"
  else []

/-! ### FrameAssembler -/

/-- One turn of the loop of `FrameAssembler::feed` on the bytes from the cursor
on: the frame it reports, if any, and how far the cursor moves. `none` is a
`break`, with too few bytes to decide. -/
def assembleStep (buf : List U8) : Option (Option ParsedFrame × Nat) :=
  if buf.length < 2 then none
  else if u16At buf 0 ≠ safetyProtoMagic then some (none, 1)
  else if buf.length < safetyHeaderSize then none
  else
    let hdr := SafetyFrameHeader.ofBytes buf
    if hdr.payloadLength.toNat > safetyMaxPayload then
      some (some ⟨hdr, [], .badLength⟩, 1)
    else
      let total := safetyHeaderSize + hdr.payloadLength.toNat
      if buf.length < total then none
      else some (some (ParsedFrame.ofBytes (buf.take total)), total)

/-- The loop. Every turn but the last consumes a byte, so fuel beyond the length
of the buffer is never used. -/
def assemble : Nat → List U8 → List ParsedFrame × List U8
  | 0, buf => ([], buf)
  | fuel + 1, buf =>
      match assembleStep buf with
      | none => ([], buf)
      | some (f, n) =>
          let (fs, rest) := assemble fuel (buf.drop n)
          (f.toList ++ fs, rest)

/-- `FrameAssembler::feed`: the frames it outputs and the new residual buffer. -/
def FrameAssembler.feed (buf data : List U8) : List ParsedFrame × List U8 :=
  assemble ((buf ++ data).length + 1) (buf ++ data)

/-- What the assembler makes of a token. -/
def Token.parsed : Token → Option ParsedFrame
  | .noise _ => none
  | .oversized hdr => some ⟨.ofBytes hdr, [], .badLength⟩
  | .frame bytes => some (.ofBytes bytes)

theorem assembleStep_eq (buf : List U8) :
    assembleStep buf = (frameStep 1 buf).map fun r => (r.1.parsed, r.2) := by
  unfold assembleStep frameStep announced
  dsimp only
  split
  · rfl
  split
  · rfl
  split
  · rfl
  rename_i hhdr
  split
  · have hof := ofBytes_take (Nat.le_refl _) (Nat.not_lt.mp hhdr)
    rw [Option.map_some, Token.parsed, hof]
  split <;> rfl

theorem assemble_eq_scan (fuel : Nat) (buf : List U8) :
    assemble fuel buf =
      ((Scanner.scan (frameStep 1) fuel buf).1.flatMap fun t => t.parsed.toList,
        (Scanner.scan (frameStep 1) fuel buf).2) := by
  induction fuel generalizing buf with
  | zero => rfl
  | succ fuel ih =>
      simp only [assemble, Scanner.scan, assembleStep_eq]
      cases frameStep 1 buf with
      | none => rfl
      | some r => simp only [Option.map_some, ih, List.flatMap_cons]

/-- The assembler puts out what it makes of the tokens of its buffer. -/
theorem feed_eq_tokens (buf data : List U8) :
    FrameAssembler.feed buf data =
      ((Scanner.tokens (frameStep 1) (buf ++ data)).1.flatMap fun t => t.parsed.toList,
        (Scanner.tokens (frameStep 1) (buf ++ data)).2) :=
  assemble_eq_scan _ _

/-- Bytes that come with the next call are looked at as if they had come with
this one. -/
theorem feed_append (buf data more : List U8) :
    FrameAssembler.feed buf (data ++ more) =
      ((FrameAssembler.feed buf data).1 ++
          (FrameAssembler.feed (FrameAssembler.feed buf data).2 more).1,
        (FrameAssembler.feed (FrameAssembler.feed buf data).2 more).2) := by
  simp only [feed_eq_tokens]
  rw [← List.append_assoc, incremental_host.tokens_append, List.flatMap_append]

/-- A whole frame in front is put out, and the rest is read from there. -/
theorem feed_isFrame {bytes : List U8} (h : IsFrame bytes) (rest : List U8) :
    FrameAssembler.feed [] (bytes ++ rest) =
      (.ofBytes bytes :: (FrameAssembler.feed [] rest).1, (FrameAssembler.feed [] rest).2) := by
  rw [feed_eq_tokens, feed_eq_tokens, List.nil_append, List.nil_append,
    incremental_host.tokens_found (frameStep_frame 1 h rest), List.drop_left]
  rfl

/-! ### Frame builders -/

def packFrame (type : U8) (seq : U16) (tsMs : U32) (payload : List U8) : List U8 :=
  (sealedHeader type seq tsMs payload).toBytes ++ payload

def buildAck (seq : U16) (tsMs : U32) (ackedSeq : U16) : List U8 :=
  packFrame safetyFrameAck seq tsMs (safetyAckPayload ackedSeq)

def buildNack (seq : U16) (tsMs : U32) (nackedSeq : U16) (reason : U8) : List U8 :=
  packFrame safetyFrameNack seq tsMs (safetyNackPayloadBytes nackedSeq reason)

def buildCommand (seq : U16) (tsMs : U32) (command arg8 : U8) (arg16 : U16) (arg32 : U32) :
    List U8 :=
  packFrame safetyFrameCommand seq tsMs (safetyCommandPayload command arg8 arg16 arg32)

def ParsedFrame.packed (type : U8) (seq : U16) (tsMs : U32) (payload : List U8) : ParsedFrame :=
  ⟨sealedHeader type seq tsMs payload, payload, .ok⟩

namespace ParsedFrame
variable (type : U8) (seq : U16) (tsMs : U32) (payload : List U8)

@[simp] theorem packed_ok : (packed type seq tsMs payload).ok := rfl
@[simp] theorem packed_type : (packed type seq tsMs payload).type = type := rfl
@[simp] theorem packed_seq : (packed type seq tsMs payload).seq = seq := rfl
@[simp] theorem packed_payload : (packed type seq tsMs payload).payload = payload := rfl

end ParsedFrame

theorem ofBytes_packFrame (type : U8) (seq : U16) (tsMs : U32) {payload : List U8}
    (h : payload.length ≤ safetyMaxPayload) :
    ParsedFrame.ofBytes (packFrame type seq tsMs payload) =
      .packed type seq tsMs payload := by
  have hvalid := safetyFrameValidate_sealed type seq tsMs h []
  rw [List.append_nil] at hvalid
  have hdrop : (packFrame type seq tsMs payload).drop safetyHeaderSize = payload :=
    List.drop_left' rfl
  rw [ParsedFrame.ofBytes, hdrop, packFrame, ofBytes_toBytes_append, hvalid]
  rfl

theorem isFrame_packFrame (type : U8) (seq : U16) (tsMs : U32) {payload : List U8}
    (h : payload.length ≤ safetyMaxPayload) : IsFrame (packFrame type seq tsMs payload) := by
  have hhdr : SafetyFrameHeader.ofBytes (packFrame type seq tsMs payload) =
      sealedHeader type seq tsMs payload := ofBytes_toBytes_append _ _
  have hann : announced (packFrame type seq tsMs payload) = payload.length := by
    rw [announced, hhdr]
    exact toNat_payloadLength h
  refine ⟨congrArg SafetyFrameHeader.magic hhdr, ?_, ?_⟩
  · rw [hann]
    exact h
  · rw [hann, packFrame, List.length_append, toBytes_length]

theorem validFrame_packFrame (type : U8) (seq : U16) (tsMs : U32) {payload : List U8}
    (h : payload.length ≤ safetyMaxPayload) : ValidFrame (packFrame type seq tsMs payload) := by
  have hvalid := safetyFrameValidate_sealed type seq tsMs h []
  rw [List.append_nil] at hvalid
  exact ⟨hvalid, (isFrame_packFrame type seq tsMs h).2.2⟩

theorem feed_packFrame_append (type : U8) (seq : U16) (tsMs : U32) {payload : List U8}
    (h : payload.length ≤ safetyMaxPayload) (rest : List U8) :
    FrameAssembler.feed [] (packFrame type seq tsMs payload ++ rest) =
      (.packed type seq tsMs payload :: (FrameAssembler.feed [] rest).1,
        (FrameAssembler.feed [] rest).2) := by
  rw [feed_isFrame (isFrame_packFrame type seq tsMs h), ofBytes_packFrame type seq tsMs h]

/-- One packed frame in, the same frame out, nothing left over: the bytes a
`read` of the device returns are one frame. -/
theorem feed_packFrame (type : U8) (seq : U16) (tsMs : U32) {payload : List U8}
    (h : payload.length ≤ safetyMaxPayload) :
    FrameAssembler.feed [] (packFrame type seq tsMs payload) =
      ([.packed type seq tsMs payload], []) := by
  have hfeed := feed_packFrame_append type seq tsMs h []
  rwa [List.append_nil] at hfeed

/-! ### DuplicateDetector -/

structure DuplicateDetector where
  seen : List (U8 × U16) := []
deriving DecidableEq

instance (d : DuplicateDetector) (k : U8 × U16) : Decidable (k ∈ d.seen) :=
  List.instDecidableMemOfLawfulBEq k d.seen

/-- Whether the key was seen before; either way it is in the set afterwards. -/
def DuplicateDetector.isDuplicate (d : DuplicateDetector) (type : U8) (seq : U16) :
    Bool × DuplicateDetector :=
  if (type, seq) ∈ d.seen then (true, d) else (false, ⟨(type, seq) :: d.seen⟩)

theorem DuplicateDetector.isDuplicate_fst (d : DuplicateDetector) (type : U8) (seq : U16) :
    (d.isDuplicate type seq).1 = true ↔ (type, seq) ∈ d.seen := by
  unfold isDuplicate
  split <;> simp_all

theorem DuplicateDetector.mem_isDuplicate_seen (d : DuplicateDetector) (type : U8) (seq : U16)
    (k : U8 × U16) :
    k ∈ (d.isDuplicate type seq).2.seen ↔ k = (type, seq) ∨ k ∈ d.seen := by
  unfold isDuplicate
  split
  · rename_i hseen
    refine ⟨Or.inr, fun h => h.elim (fun hk => hk ▸ hseen) id⟩
  · exact List.mem_cons

end SafetyCopro
