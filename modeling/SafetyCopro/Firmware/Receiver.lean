import SafetyCopro.Firmware.SafetyProtocol

/-!
The firmware's receiver as a scanner. It keeps no buffer to look at again, so
its state is a function of what a scanner would keep; and it drops the whole
header of an oversized frame where the hosts go on behind its first byte.
-/

namespace SafetyCopro

theorem incremental_firmware : Scanner.Incremental (frameStep safetyHeaderSize) :=
  incremental_frameStep (by decide) (Nat.le_refl _)

/-- The message posted for a token. -/
def Token.message : Token → List SafetyRxFrame
  | .frame bytes =>
      if safetyFrameValidate bytes = .ok then
        [⟨.ofBytes bytes, bytes.drop safetyHeaderSize⟩]
      else []
  | _ => []

/-- The state of the receiver when a scanner would keep these bytes. -/
def rxOf (rest : List U8) : RxState :=
  if rest.length < 2 then
    if rest = [magicLo] then ⟨.huntMagicHi, rest, 0, 0⟩ else {}
  else if rest.length < safetyHeaderSize then
    ⟨.header, rest, safetyHeaderSize - rest.length, 0⟩
  else
    ⟨.payload, rest, safetyHeaderSize + announced rest - rest.length,
      (SafetyFrameHeader.ofBytes rest).payloadLength⟩

/-- What one more byte does, in terms of the bytes kept so far. -/
def RxTracks (rest : List U8) (b : U8) : Prop :=
  rxFeedByte (rxOf rest) b =
    (rxOf (Scanner.tokens (frameStep safetyHeaderSize) (rest ++ [b])).2,
      (Scanner.tokens (frameStep safetyHeaderSize) (rest ++ [b])).1.flatMap Token.message)

theorem rxTracks_of_wait {rest : List U8} {b : U8}
    (hwait : frameStep safetyHeaderSize (rest ++ [b]) = none)
    (h : rxFeedByte (rxOf rest) b = (rxOf (rest ++ [b]), [])) : RxTracks rest b := by
  rw [RxTracks, Scanner.Incremental.tokens_wait hwait]
  exact h

/-- The byte completes a token that takes all bytes. -/
theorem rxTracks_of_found {rest : List U8} {b : U8} {t : Token}
    (hfound : frameStep safetyHeaderSize (rest ++ [b]) = some (t, rest.length + 1))
    (h : rxFeedByte (rxOf rest) b = ({}, t.message)) : RxTracks rest b := by
  have hdrop : (rest ++ [b]).drop (rest.length + 1) = [] :=
    List.drop_of_length_le (by simp)
  rw [RxTracks, incremental_firmware.tokens_found hfound, hdrop,
    Scanner.Incremental.tokens_wait (by rfl), List.flatMap_singleton, h]
  rfl

theorem rxFeedByte_hunting {b : U8} : rxFeedByte {} b = (rxOf [b], []) := by
  by_cases hb : b = magicLo
  · subst hb
    rfl
  · have hne : [b] ≠ [magicLo] := by simpa using hb
    simp only [rxFeedByte, if_neg hb]
    rw [rxOf, if_pos (by simp), if_neg hne]

theorem rxTracks_hunt {rest : List U8} (hlen : rest.length < 2) (b : U8) : RxTracks rest b := by
  obtain _ | ⟨a, _ | ⟨c, rest⟩⟩ := rest
  · exact rxTracks_of_wait (frameStep_short _ (by simp)) rxFeedByte_hunting
  · by_cases hmagic : a = magicLo ∧ b = magicHi
    · obtain ⟨rfl, rfl⟩ := hmagic
      exact rxTracks_of_wait rfl rfl
    · have hnoise := @frameStep_noise safetyHeaderSize a b [] hmagic
      have hstate : rxFeedByte (rxOf [a]) b = (rxOf [b], []) := by
        by_cases ha : a = magicLo
        · have hb : b ≠ magicHi := fun hb => hmagic ⟨ha, hb⟩
          subst ha
          by_cases hlo : b = magicLo
          · subst hlo
            rfl
          · have hne : [b] ≠ [magicLo] := by simpa using hlo
            have hrx : rxOf [magicLo] = ⟨.huntMagicHi, [magicLo], 0, 0⟩ := rfl
            rw [hrx, rxOf, if_pos (by simp), if_neg hne]
            simp only [rxFeedByte, if_neg hb, if_neg hlo]
            rfl
        · have hne : [a] ≠ [magicLo] := by simpa using ha
          rw [rxOf, if_pos (by simp), if_neg hne]
          exact rxFeedByte_hunting
      rw [RxTracks, List.singleton_append, incremental_firmware.tokens_found hnoise, hstate]
      rfl
  · simp only [List.length_cons] at hlen
    omega

theorem frameComplete_eq {rxs : RxState} {bytes : List U8} (hbuf : rxs.buf = bytes)
    (hplen : rxs.payloadLen = (SafetyFrameHeader.ofBytes bytes).payloadLength)
    (hlen : bytes.length = safetyHeaderSize + announced bytes) :
    frameComplete rxs = ({}, (Token.frame bytes).message) := by
  have htake : (bytes.drop safetyHeaderSize).take (announced bytes) =
      bytes.drop safetyHeaderSize := by
    refine List.take_of_length_le ?_
    rw [List.length_drop]
    omega
  have hann : (SafetyFrameHeader.ofBytes bytes).payloadLength.toNat = announced bytes := rfl
  rw [frameComplete, hbuf, hplen, hann, htake]
  rfl

/-- The last byte of the header decides. -/
theorem rxTracks_header_end {rest : List U8} (hlen : rest.length + 1 = safetyHeaderSize) {b : U8}
    (hmagic : u16At (rest ++ [b]) 0 = safetyProtoMagic) : RxTracks rest b := by
  have h16 : safetyHeaderSize = 16 := rfl
  have hfull : (rest ++ [b]).length = safetyHeaderSize := by simpa using hlen
  have hone : safetyHeaderSize - rest.length = 1 := by omega
  have hrx : rxOf rest = ⟨.header, rest, 1, 0⟩ := by
    rw [rxOf, if_neg (by omega), if_pos (by omega), hone]
  have hann : (SafetyFrameHeader.ofBytes (rest ++ [b])).payloadLength.toNat =
      announced (rest ++ [b]) := rfl
  have hzero : (SafetyFrameHeader.ofBytes (rest ++ [b])).payloadLength = 0 ↔
      announced (rest ++ [b]) = 0 := by
    rw [← BitVec.toNat_inj, hann]
    rfl
  by_cases hlong : announced (rest ++ [b]) > safetyMaxPayload
  · have hfound := frameStep_oversized safetyHeaderSize (Nat.le_of_eq hfull.symm) hmagic hlong
    refine rxTracks_of_found (hfound.trans (by rw [hlen])) ?_
    simp only [hrx, rxFeedByte, Nat.sub_self, if_true, hann, if_pos hlong]
    rfl
  have hfits := Nat.not_lt.mp hlong
  by_cases hnone : announced (rest ++ [b]) = 0
  · have hframe : IsFrame (rest ++ [b]) := ⟨hmagic, hfits, by omega⟩
    have hfound := frameStep_frame safetyHeaderSize hframe []
    rw [List.append_nil, List.length_append, List.length_singleton] at hfound
    refine rxTracks_of_found hfound ?_
    simp only [hrx, rxFeedByte, Nat.sub_self, if_true, hzero.mpr hnone]
    exact frameComplete_eq rfl (hzero.mpr hnone).symm (by omega)
  · refine rxTracks_of_wait
      (frameStep_payload _ (Nat.le_of_eq hfull.symm) hmagic hfits (by omega)) ?_
    have hneed : safetyHeaderSize + announced (rest ++ [b]) - safetyHeaderSize =
        announced (rest ++ [b]) := Nat.add_sub_cancel_left _ _
    simp only [hrx, rxFeedByte, Nat.sub_self, if_true, hann, if_neg hlong, mt hzero.mp hnone,
      if_false]
    rw [rxOf, if_neg (by omega), if_neg (by omega), hfull, hneed]

theorem rxTracks_header {rest : List U8} (hlen : 2 ≤ rest.length)
    (hmagic : u16At rest 0 = safetyProtoMagic) (hshort : rest.length < safetyHeaderSize) (b : U8) :
    RxTracks rest b := by
  have h16 : safetyHeaderSize = 16 := rfl
  have hmagic' : u16At (rest ++ [b]) 0 = safetyProtoMagic := by
    rw [u16At_append_left [b] (by omega), hmagic]
  by_cases hmore : rest.length + 1 = safetyHeaderSize
  · exact rxTracks_header_end hmore hmagic'
  · have hlen' : (rest ++ [b]).length = rest.length + 1 := by simp
    have hneed : safetyHeaderSize - rest.length - 1 ≠ 0 := by omega
    refine rxTracks_of_wait (frameStep_header _ hmagic' (by omega)) ?_
    rw [rxOf, if_neg (by omega), if_pos hshort, rxOf, if_neg (by omega), if_pos (by omega), hlen',
      ← Nat.sub_sub]
    simp only [rxFeedByte, hneed, if_false]

theorem rxTracks_payload {rest : List U8} (hlen : safetyHeaderSize ≤ rest.length)
    (hmagic : u16At rest 0 = safetyProtoMagic) (hfits : announced rest ≤ safetyMaxPayload)
    (hshort : rest.length < safetyHeaderSize + announced rest) (b : U8) : RxTracks rest b := by
  have h16 : safetyHeaderSize = 16 := rfl
  have hlen' : (rest ++ [b]).length = rest.length + 1 := by simp
  have hof := ofBytes_append_left [b] hlen
  have hann : announced (rest ++ [b]) = announced rest := announced_append_left [b] hlen
  have hmagic' : u16At (rest ++ [b]) 0 = safetyProtoMagic := by
    rw [u16At_append_left [b] (by omega), hmagic]
  have hrx : rxOf rest = ⟨.payload, rest, safetyHeaderSize + announced rest - rest.length,
      (SafetyFrameHeader.ofBytes rest).payloadLength⟩ := by
    rw [rxOf, if_neg (by omega), if_neg (by omega)]
  by_cases hmore : rest.length + 1 < safetyHeaderSize + announced rest
  · have hneed : safetyHeaderSize + announced rest - rest.length - 1 ≠ 0 := by omega
    refine rxTracks_of_wait
      (frameStep_payload _ (by omega) hmagic' (by omega) (by omega)) ?_
    simp only [hrx, rxFeedByte, hneed, if_false]
    rw [rxOf, if_neg (by omega), if_neg (by omega), hlen', hann, hof, ← Nat.sub_sub]
  · have hneed : safetyHeaderSize + announced rest - rest.length - 1 = 0 := by omega
    have hframe : IsFrame (rest ++ [b]) := ⟨hmagic', by omega, by omega⟩
    have hfound := frameStep_frame safetyHeaderSize hframe []
    rw [List.append_nil, hlen'] at hfound
    refine rxTracks_of_found hfound ?_
    simp only [hrx, rxFeedByte, hneed, if_true]
    exact frameComplete_eq rfl (by rw [hof]) (by omega)

/-- One byte, received in the state for what a scanner keeps. -/
theorem rxTracks {rest : List U8} (h : frameStep safetyHeaderSize rest = none) (b : U8) :
    RxTracks rest b := by
  obtain hlen | ⟨hlen, hmagic, hshort⟩ | ⟨hlen, hmagic, hfits, hshort⟩ := frameStep_none h
  · exact rxTracks_hunt hlen b
  · exact rxTracks_header hlen hmagic hshort b
  · exact rxTracks_payload hlen hmagic hfits hshort b

theorem rxFeed_rxOf (bytes : List U8) {rest : List U8}
    (h : frameStep safetyHeaderSize rest = none) :
    rxFeed (rxOf rest) bytes =
      (rxOf (Scanner.tokens (frameStep safetyHeaderSize) (rest ++ bytes)).2,
        (Scanner.tokens (frameStep safetyHeaderSize) (rest ++ bytes)).1.flatMap Token.message) := by
  induction bytes generalizing rest with
  | nil =>
      rw [List.append_nil, Scanner.Incremental.tokens_wait h]
      rfl
  | cons b bytes ih =>
      have hsplit : rest ++ b :: bytes = rest ++ [b] ++ bytes := by simp
      rw [rxFeed_cons, rxTracks h b, ih (incremental_firmware.step_rest _), hsplit,
        incremental_firmware.tokens_append (rest ++ [b]), List.flatMap_append]

/-- The receiver posts the messages of the frames a scanner finds, and its state
is the one for what the scanner keeps. -/
theorem rxFeed_eq_tokens (bytes : List U8) :
    rxFeed {} bytes =
      (rxOf (Scanner.tokens (frameStep safetyHeaderSize) bytes).2,
        (Scanner.tokens (frameStep safetyHeaderSize) bytes).1.flatMap Token.message) :=
  @rxFeed_rxOf bytes [] (frameStep_nil _)

/-- A packed frame, received from the start of a hunt, is posted as it was
packed and leaves the hunt at its start. -/
theorem rxFeed_packFrame (type : U8) (seq : U16) (tsMs : U32) {payload : List U8}
    (h : payload.length ≤ safetyMaxPayload) :
    rxFeed {} (packFrame type seq tsMs payload) =
      ({}, [⟨sealedHeader type seq tsMs payload, payload⟩]) := by
  have hframe := isFrame_packFrame type seq tsMs h
  have hparsed := ofBytes_packFrame type seq tsMs h
  have hstep := frameStep_frame safetyHeaderSize hframe []
  rw [List.append_nil] at hstep
  have hvalid : safetyFrameValidate (packFrame type seq tsMs payload) = .ok :=
    congrArg ParsedFrame.validateResult hparsed
  have hhdr : SafetyFrameHeader.ofBytes (packFrame type seq tsMs payload) =
      sealedHeader type seq tsMs payload := congrArg ParsedFrame.header hparsed
  have hdrop : (packFrame type seq tsMs payload).drop safetyHeaderSize = payload :=
    congrArg ParsedFrame.payload hparsed
  rw [rxFeed_eq_tokens, incremental_firmware.tokens_found hstep, List.drop_length,
    Scanner.Incremental.tokens_wait (frameStep_nil _), List.flatMap_singleton, Token.message,
    if_pos hvalid, hhdr, hdrop]
  rfl

end SafetyCopro
