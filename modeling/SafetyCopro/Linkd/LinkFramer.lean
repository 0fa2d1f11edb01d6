import SafetyCopro.Protocol.Framing

/-!
The framer of the link daemon, `safety-linkd/main.cpp`. It passes whole frames
on, with whatever version and checksum they carry, and drops all other bytes.
-/

namespace SafetyCopro

/-- One turn of the loop of `LinkFramer::feed` on the bytes from the cursor on:
the frame it puts out, if any, and how far the cursor moves. -/
def linkStep (buf : List U8) : Option (Option (List U8) × Nat) :=
  if buf.length < 2 then none
  else if u16At buf 0 ≠ safetyProtoMagic then some (none, 1)
  else if buf.length < safetyHeaderSize then none
  else
    let hdr := SafetyFrameHeader.ofBytes buf
    if hdr.payloadLength.toNat > safetyMaxPayload then some (none, 1)
    else
      let total := safetyHeaderSize + hdr.payloadLength.toNat
      if buf.length < total then none else some (some (buf.take total), total)

/-- `LinkFramer::feed`: the frames it puts out and the new residual buffer. -/
def LinkFramer.feed (buf data : List U8) : List (List U8) × List U8 :=
  let r := Scanner.tokens linkStep (buf ++ data)
  (r.1.flatMap Option.toList, r.2)

theorem linkStep_eq (buf : List U8) :
    linkStep buf = (frameStep 1 buf).map fun r => (r.1.wholeFrame, r.2) := by
  unfold linkStep frameStep announced
  dsimp only
  repeat' split
  all_goals rfl

theorem LinkFramer.feed_eq_tokens (buf data : List U8) :
    LinkFramer.feed buf data =
      ((Scanner.tokens (frameStep 1) (buf ++ data)).1.flatMap fun t => t.wholeFrame.toList,
        (Scanner.tokens (frameStep 1) (buf ++ data)).2) := by
  simp only [LinkFramer.feed, Scanner.tokens, Scanner.scan_map linkStep_eq, List.flatMap_map]

end SafetyCopro
