import SafetyCopro.Lib.Machine
import SafetyCopro.Supervisor.Frames

/-!
The firmware's side of the wire, `safety_protocol.c`: the sender with its
counter shared by all tasks, and the state machine that assembles a received
frame byte by byte in the UART interrupt.
-/

namespace SafetyCopro

/-- `safety_send_frame` on a ready UART: the counter behind it and the bytes it
puts out, unless the payload is refused. Only the low 16 bits of the counter
are sent. -/
def safetySendFrame (txSequence : Nat) (type : U8) (payload : List U8) (nowMs : U32) :
    Nat × Option (List U8) :=
  if payload.length > safetyMaxPayload then (txSequence, none)
  else
    let hdr := safetyFrameInit type (BitVec.ofNat 16 txSequence)
      (BitVec.ofNat 16 payload.length) nowMs
    (txSequence + 1, safetyFramePack hdr payload)

theorem safetySendFrame_eq (txSequence : Nat) (type : U8) {payload : List U8} (nowMs : U32)
    (h : payload.length ≤ safetyMaxPayload) :
    safetySendFrame txSequence type payload nowMs =
      (txSequence + 1,
        some (packFrame type (BitVec.ofNat 16 txSequence) nowMs payload)) := by
  rw [safetySendFrame, if_neg (Nat.not_lt.mpr h)]
  simp only [safetyFramePack_init type _ nowMs h, packFrame]

/-! ### Receiving -/

inductive RxPhase
  | huntMagicLo | huntMagicHi | header | payload
deriving DecidableEq, Repr

/-- `rxs`; `buf` holds the `got` bytes received so far. -/
structure RxState where
  phase : RxPhase := .huntMagicLo
  buf : List U8 := []
  need : Nat := 0
  payloadLen : U16 := 0
deriving DecidableEq, Repr

/-- `struct safety_rx_frame`, with the bytes of the payload that were copied. -/
structure SafetyRxFrame where
  hdr : SafetyFrameHeader
  payload : List U8
deriving DecidableEq, Repr

def rxReset : RxState := {}

/-- `frame_complete`: a frame that validates is posted, any other is dropped
without a word, and the hunt starts anew. -/
def frameComplete (rxs : RxState) : RxState × List SafetyRxFrame :=
  (rxReset,
    if safetyFrameValidate rxs.buf = .ok then
      [⟨.ofBytes rxs.buf, (rxs.buf.drop safetyHeaderSize).take rxs.payloadLen.toNat⟩]
    else [])

/-- `rx_feed_byte`: the new state and the frame handed to `k_msgq_put`, if any. -/
def rxFeedByte (rxs : RxState) (b : U8) : RxState × List SafetyRxFrame :=
  match rxs.phase with
  | .huntMagicLo =>
      if b = magicLo then ({ rxs with phase := .huntMagicHi, buf := [b] }, []) else (rxs, [])
  | .huntMagicHi =>
      if b = magicHi then
        ({ rxs with phase := .header, buf := rxs.buf ++ [b], need := safetyHeaderSize - 2 }, [])
      else if b = magicLo then ({ rxs with buf := [b] }, [])
      else (rxReset, [])
  | .header =>
      let rxs := { rxs with buf := rxs.buf ++ [b], need := rxs.need - 1 }
      if rxs.need = 0 then
        let hdr := SafetyFrameHeader.ofBytes rxs.buf
        if hdr.payloadLength.toNat > safetyMaxPayload then (rxReset, [])
        else
          let rxs := { rxs with payloadLen := hdr.payloadLength }
          if hdr.payloadLength = 0 then frameComplete rxs
          else ({ rxs with phase := .payload, need := hdr.payloadLength.toNat }, [])
      else (rxs, [])
  | .payload =>
      let rxs := { rxs with buf := rxs.buf ++ [b], need := rxs.need - 1 }
      if rxs.need = 0 then frameComplete rxs else (rxs, [])

def rxFeed (rxs : RxState) (bytes : List U8) : RxState × List SafetyRxFrame :=
  (Machine.after rxFeedByte rxs bytes, Machine.outputs rxFeedByte rxs bytes)

theorem rxFeed_cons (rxs : RxState) (b : U8) (bytes : List U8) :
    rxFeed rxs (b :: bytes) =
      ((rxFeed (rxFeedByte rxs b).1 bytes).1,
        (rxFeedByte rxs b).2 ++ (rxFeed (rxFeedByte rxs b).1 bytes).2) := rfl

theorem rxFeed_append (rxs : RxState) (bytes more : List U8) :
    rxFeed rxs (bytes ++ more) =
      ((rxFeed (rxFeed rxs bytes).1 more).1,
        (rxFeed rxs bytes).2 ++ (rxFeed (rxFeed rxs bytes).1 more).2) := by
  simp only [rxFeed, Machine.after_append, Machine.outputs_append]

end SafetyCopro
