import SafetyCopro.Bridge.ByteFramer
import SafetyCopro.Firmware.Receiver
import SafetyCopro.Linkd.LinkFramer
import SafetyCopro.Protocol.Streams

/-!
The four receivers of the system on one byte stream. Those on the hosts keep a
buffer and are called with chunks; the firmware's is called with every byte.
All of them put out something for each token of the stream, so what they agree
on, and where they differ, is read off the tokens.
-/

namespace SafetyCopro

open Scanner (feeds tokens)

section Feeds
variable (chunks : List (List U8))

theorem frameAssembler_feeds :
    feeds FrameAssembler.feed [] chunks =
      ((tokens (frameStep 1) chunks.flatten).1.flatMap fun t => t.parsed.toList,
        (tokens (frameStep 1) chunks.flatten).2) :=
  incremental_host.feeds_eq feed_eq_tokens chunks (frameStep_nil 1)

theorem linkFramer_feeds :
    feeds LinkFramer.feed [] chunks =
      ((tokens (frameStep 1) chunks.flatten).1.flatMap fun t => t.wholeFrame.toList,
        (tokens (frameStep 1) chunks.flatten).2) :=
  incremental_host.feeds_eq LinkFramer.feed_eq_tokens chunks (frameStep_nil 1)

theorem byteFramer_feeds :
    Grouped (tokens (frameStep 1) chunks.flatten).1 (feeds ByteFramer.feed [] chunks).1 ∧
      (feeds ByteFramer.feed [] chunks).2 = (tokens (frameStep 1) chunks.flatten).2 :=
  incremental_host.feeds_rel .nil .append ByteFramer.feed_grouped chunks
    (frameStep_nil 1)

/-- The frames among the pieces. -/
theorem byteFramer_frames :
    (feeds ByteFramer.feed [] chunks).1.filter (fun piece => IsFrame piece) =
      (tokens (frameStep 1) chunks.flatten).1.flatMap fun t => t.wholeFrame.toList :=
  (byteFramer_feeds chunks).1.filter_isFrame

theorem residual_length (bytes : List U8) : (tokens (frameStep 1) bytes).2.length ≤ 271 :=
  Nat.le_of_lt_succ (length_of_frameStep_none (incremental_host.step_rest bytes))

end Feeds

/-! ### Chunks -/

/-- How a stream is cut into chunks does not matter, and little is kept. -/
theorem feeds_chunking {chunks chunks' : List (List U8)} (h : chunks.flatten = chunks'.flatten) :
    feeds FrameAssembler.feed [] chunks = feeds FrameAssembler.feed [] chunks' ∧
      feeds LinkFramer.feed [] chunks = feeds LinkFramer.feed [] chunks' ∧
      (feeds ByteFramer.feed [] chunks).1.flatten = (feeds ByteFramer.feed [] chunks').1.flatten ∧
      (feeds ByteFramer.feed [] chunks).1.filter (fun piece => IsFrame piece) =
        (feeds ByteFramer.feed [] chunks').1.filter (fun piece => IsFrame piece) ∧
      (feeds ByteFramer.feed [] chunks).2 = (feeds ByteFramer.feed [] chunks').2 ∧
      (feeds FrameAssembler.feed [] chunks).2.length ≤ 271 ∧
      (feeds LinkFramer.feed [] chunks).2.length ≤ 271 ∧
      (feeds ByteFramer.feed [] chunks).2.length ≤ 271 := by
  obtain ⟨hpieces, hrest⟩ := byteFramer_feeds chunks
  obtain ⟨hpieces', hrest'⟩ := byteFramer_feeds chunks'
  rw [frameAssembler_feeds, frameAssembler_feeds, linkFramer_feeds, linkFramer_feeds,
    byteFramer_frames, byteFramer_frames, hpieces.flatten, hpieces'.flatten, hrest, hrest', ← h]
  have hlen := residual_length chunks.flatten
  exact ⟨rfl, rfl, rfl, rfl, rfl, hlen, hlen, hlen⟩

theorem feeds_chunking_magic :
    feeds FrameAssembler.feed [] [[magicLo], [magicHi, 1]] =
      feeds FrameAssembler.feed [] [[magicLo, magicHi], [1]] :=
  (feeds_chunking rfl).1

/-! ### The hosts -/

theorem isFrame_of_mem_tokens {skip : Nat} (h : Scanner.Incremental (frameStep skip))
    {bytes f : List U8} (hf : Token.frame f ∈ (tokens (frameStep skip) bytes).1) : IsFrame f :=
  h.forall_mem_tokens (P := fun t => ∀ f, t = .frame f → IsFrame f)
    (fun _ _ _ hstep _ ht => (isFrame_of_frameStep (ht ▸ hstep)).1) bytes _ hf f rfl

/-- The bytes a parsed frame was read from. -/
def ParsedFrame.toBytes (f : ParsedFrame) : List U8 := f.header.toBytes ++ f.payload

theorem ParsedFrame.toBytes_ofBytes {bytes : List U8} (h : IsFrame bytes) :
    (ParsedFrame.ofBytes bytes).toBytes = bytes := by
  have hlen : safetyHeaderSize ≤ bytes.length := by
    rw [h.2.2]
    exact Nat.le_add_right _ _
  rw [ParsedFrame.toBytes, ParsedFrame.ofBytes, SafetyCopro.toBytes_ofBytes hlen]
  exact List.take_append_drop _ _

theorem parsed_not_badLength {ts : List Token} (hts : ∀ f, Token.frame f ∈ ts → IsFrame f) :
    ((ts.flatMap fun t => t.parsed.toList).filter fun f => f.validateResult ≠ .badLength).map
        ParsedFrame.toBytes =
      ts.flatMap fun t => t.wholeFrame.toList := by
  rw [List.filter_flatMap, List.map_flatMap]
  refine List.flatMap_congr fun t ht => ?_
  cases t with
  | noise b => rfl
  | oversized hdr => rfl
  | frame f =>
      have hvalid : (ParsedFrame.ofBytes f).validateResult ≠ .badLength :=
        validate_ne_badLength (hts f ht)
      simp only [Token.parsed, Token.wholeFrame, Option.toList_some]
      rw [List.filter_cons_of_pos (by simpa using hvalid), List.filter_nil, List.map_singleton,
        ParsedFrame.toBytes_ofBytes (hts f ht)]

/-- The three hosts find the same frames in a stream, however it is cut for
each, and keep the same bytes. -/
theorem hosts_agree {chunks chunks' chunks'' : List (List U8)}
    (h : chunks.flatten = chunks''.flatten) (h' : chunks'.flatten = chunks''.flatten) :
    (feeds LinkFramer.feed [] chunks').1 =
        ((feeds FrameAssembler.feed [] chunks).1.filter
          fun f => f.validateResult ≠ .badLength).map (fun f => f.header.toBytes ++ f.payload) ∧
      (feeds ByteFramer.feed [] chunks'').1.filter (fun piece => IsFrame piece) =
        (feeds LinkFramer.feed [] chunks').1 ∧
      (feeds LinkFramer.feed [] chunks').2 = (feeds FrameAssembler.feed [] chunks).2 ∧
      (feeds ByteFramer.feed [] chunks'').2 = (feeds FrameAssembler.feed [] chunks).2 := by
  rw [frameAssembler_feeds, linkFramer_feeds, byteFramer_frames, (byteFramer_feeds chunks'').2,
    h, h']
  exact ⟨(parsed_not_badLength fun f => isFrame_of_mem_tokens incremental_host).symm, rfl, rfl,
    rfl⟩

theorem hosts_agree_magic :
    (feeds LinkFramer.feed [] [[magicLo, magicHi]]).2 =
      (feeds FrameAssembler.feed [] [[magicLo], [magicHi]]).2 :=
  (@hosts_agree [[magicLo], [magicHi]] [[magicLo, magicHi]] [[magicLo, magicHi]] rfl rfl).2.2.1

/-! ### Frames and noise -/

theorem flatMap_streamTokens {ω : Type} (out : Token → List ω) (g : List U8 → ω)
    (hout : ∀ b, out (.noise b) = []) {segs : List (List U8 × List U8)}
    (hsegs : ∀ s ∈ segs, out (.frame s.2) = [g s.2]) (noise : List U8) :
    (streamTokens segs ++ noise.map Token.noise).flatMap out = segs.map fun s => g s.2 := by
  have hnoise : ∀ noise : List U8, (noise.map Token.noise).flatMap out = [] := by
    intro noise
    rw [List.flatMap_map]
    exact List.flatMap_eq_nil_iff.mpr fun b _ => hout b
  simp only [streamTokens, List.flatMap_append, List.flatMap_assoc, hnoise, List.flatMap_singleton,
    List.nil_append, List.append_nil]
  rw [List.flatMap_congr hsegs, List.map_eq_flatMap]

/-- The frames are pieces of their own; the pieces before a frame are the noise
before it, and those behind the last make up a first part of the noise there. -/
def FramesApart : List (List U8 × List U8) → List U8 → List (List U8) → Prop
  | [], tail, pieces => pieces.flatten <+: tail
  | (noise, frame) :: segs, tail, pieces =>
      ∃ before after, pieces = before ++ frame :: after ∧ before.flatten = noise ∧
        FramesApart segs tail after

theorem framesApart_of_grouped {segs : List (List U8 × List U8)} {tail : List U8} {n : Nat}
    {pieces : List (List U8)}
    (h : Grouped (streamTokens segs ++ (tail.take n).map Token.noise) pieces) :
    FramesApart segs tail pieces := by
  induction segs generalizing pieces with
  | nil =>
      have hflatten := h.flatten
      rw [streamTokens, List.flatMap_nil, List.nil_append, Grouped.flatMap_noise] at hflatten
      rw [FramesApart, hflatten]
      exact List.take_prefix _ _
  | cons s segs ih =>
      rw [streamTokens, List.flatMap_cons, List.append_assoc, List.append_assoc] at h
      obtain ⟨before, after, hpieces, hbefore, hafter⟩ := Grouped.split_frame h
      exact ⟨before, after, hpieces, hbefore, ih hafter⟩

theorem message_valid {f : List U8} (h : ValidFrame f) :
    (Token.frame f).message = [⟨.ofBytes f, f.drop safetyHeaderSize⟩] := by
  rw [Token.message, if_pos h.valid]

theorem parsed_valid {f : List U8} (h : ValidFrame f) :
    (Token.frame f).parsed.toList = [⟨.ofBytes f, f.drop safetyHeaderSize, .ok⟩] := by
  rw [Token.parsed, ParsedFrame.ofBytes, h.valid]
  rfl

/-- Valid frames come through any noise without a magic, at all four receivers. -/
theorem stream_round_trip {segs : List (List U8 × List U8)} {tail : List U8}
    (hnoise : ∀ s ∈ segs, NoMagic s.1) (hframes : ∀ s ∈ segs, ValidFrame s.2)
    (htail : NoMagic tail) {chunks : List (List U8)} (hchunks : chunks.flatten = stream segs tail) :
    (feeds FrameAssembler.feed [] chunks).1 =
        segs.map (fun s => ⟨.ofBytes s.2, s.2.drop safetyHeaderSize, .ok⟩) ∧
      (feeds LinkFramer.feed [] chunks).1 = segs.map (fun s => s.2) ∧
      FramesApart segs tail (feeds ByteFramer.feed [] chunks).1 ∧
      (rxFeed {} chunks.flatten).2 =
        segs.map (fun s => ⟨.ofBytes s.2, s.2.drop safetyHeaderSize⟩) := by
  have hsegs : ∀ s ∈ segs, NoMagic s.1 ∧ IsFrame s.2 :=
    fun s hs => ⟨hnoise s hs, (hframes s hs).isFrame⟩
  obtain ⟨n, hhost⟩ := tokens_stream incremental_host hsegs htail
  obtain ⟨m, hfirmware⟩ := tokens_stream incremental_firmware hsegs htail
  have hpieces := (byteFramer_feeds chunks).1
  rw [hchunks, hhost] at hpieces
  rw [frameAssembler_feeds, linkFramer_feeds, hchunks, rxFeed_eq_tokens, hhost, hfirmware]
  refine ⟨?_, ?_, framesApart_of_grouped hpieces, ?_⟩
  · exact flatMap_streamTokens (fun t => t.parsed.toList)
      (fun f => ⟨.ofBytes f, f.drop safetyHeaderSize, .ok⟩) (fun _ => rfl)
      (fun s hs => parsed_valid (hframes s hs)) _
  · exact flatMap_streamTokens (fun t => t.wholeFrame.toList) id (fun _ => rfl) (fun _ _ => rfl) _
  · exact flatMap_streamTokens Token.message (fun f => ⟨.ofBytes f, f.drop safetyHeaderSize⟩)
      (fun _ => rfl) (fun s hs => message_valid (hframes s hs)) _

/-- Half a magic in front of a frame, and the chunks cut through both. -/
theorem stream_round_trip_half_magic :
    let f := packFrame safetyFrameHeartbeat 1 0 []
    (feeds LinkFramer.feed [] [[0, magicLo, magicLo], f.drop 1]).1 = [f] := by
  intro f
  have hf : ValidFrame f := validFrame_packFrame safetyFrameHeartbeat 1 0 (Nat.zero_le _)
  have htrip := @stream_round_trip [([0, magicLo], f)] []
    (List.forall_mem_singleton.mpr (by decide)) (List.forall_mem_singleton.mpr hf) (by decide)
    [[0, magicLo, magicLo], f.drop 1] rfl
  exact htrip.2.1

/-! ### After garbage -/

theorem map_suffix_flatMap {ω : Type} (out : Token → List ω) (g : List U8 → ω)
    {post : List (List U8)} {ts : List Token} (hout : ∀ f ∈ post, out (.frame f) = [g f])
    (h : post.map Token.frame <:+ ts) : post.map g <:+ ts.flatMap out := by
  obtain ⟨before, rfl⟩ := h
  rw [List.flatMap_append, List.flatMap_map, List.map_eq_flatMap,
    List.flatMap_congr fun f hf => (hout f hf).symm]
  exact List.suffix_append _ _

/-- Whatever garbage comes first, every frame that starts at least 270 bytes
behind it is delivered by all four receivers. -/
theorem bounded_resync (g : List U8) {pre post : List (List U8)}
    (hvalid : ∀ f ∈ pre ++ post, ValidFrame f) (hlone : ∀ f ∈ pre ++ post, NoMagic f.tail)
    (hlen : 270 ≤ pre.flatten.length) {chunks : List (List U8)}
    (hchunks : chunks.flatten = g ++ (pre ++ post).flatten) :
    post.map (fun f => (⟨.ofBytes f, f.drop safetyHeaderSize, .ok⟩ : ParsedFrame)) <:+
        (feeds FrameAssembler.feed [] chunks).1 ∧
      post <:+ (feeds LinkFramer.feed [] chunks).1 ∧
      post <:+ (feeds ByteFramer.feed [] chunks).1.filter (fun piece => IsFrame piece) ∧
      post.map (fun f => (⟨.ofBytes f, f.drop safetyHeaderSize⟩ : SafetyRxFrame)) <:+
        (rxFeed {} chunks.flatten).2 := by
  have hmagic : ∀ f ∈ pre ++ post, LoneMagic f := fun f hf => ⟨(hvalid f hf).isFrame, hlone f hf⟩
  obtain ⟨hpre, hpost⟩ := List.forall_mem_append.mp hmagic
  have hvalid' : ∀ f ∈ post, ValidFrame f := fun f hf => hvalid f (List.mem_append_right _ hf)
  have hhost := tokens_resync incremental_host (by decide) g hpre hpost hlen
  have hfirmware := tokens_resync incremental_firmware (Nat.le_refl _) g hpre hpost hlen
  have hframes := map_suffix_flatMap (fun t => t.wholeFrame.toList) id (fun f _ => rfl) hhost
  rw [List.map_id] at hframes
  rw [frameAssembler_feeds, linkFramer_feeds, byteFramer_frames, hchunks, rxFeed_eq_tokens]
  exact ⟨map_suffix_flatMap _ _ (fun f hf => parsed_valid (hvalid' f hf)) hhost, hframes, hframes,
    map_suffix_flatMap _ _ (fun f hf => message_valid (hvalid' f hf)) hfirmware⟩

/-- A magic right in front of one long frame may cost that frame, not the next. -/
theorem bounded_resync_long_frame :
    let long := packFrame safetyFrameTelemetry 1 0 (List.replicate 256 0)
    let next := packFrame safetyFrameHeartbeat 2 0 []
    270 ≤ long.length ∧
      [next] <:+ (feeds LinkFramer.feed [] [[magicLo, magicHi], long, next]).1 := by
  intro long next
  have hlong : ValidFrame long :=
    validFrame_packFrame safetyFrameTelemetry 1 0 (by rw [List.length_replicate]; decide)
  have hnext : ValidFrame next := validFrame_packFrame safetyFrameHeartbeat 2 0 (Nat.zero_le _)
  have hlen : 270 ≤ long.length := by decide +kernel
  have hsync := @bounded_resync [magicLo, magicHi] [long] [next]
    (List.forall_mem_cons.mpr ⟨hlong, List.forall_mem_singleton.mpr hnext⟩)
    (List.forall_mem_cons.mpr
      ⟨by decide +kernel, List.forall_mem_singleton.mpr (by decide +kernel)⟩)
    (by rwa [List.flatten_singleton]) [[magicLo, magicHi], long, next] rfl
  exact ⟨hlen, hsync.2.1⟩

/-! ### Hosts and firmware -/

/-- Along the firmware's scan, no magic starts within the bytes it drops behind
the first one of an oversized header. -/
inductive NoMagicDropped : List U8 → Prop
  | wait {buf : List U8} (hstep : frameStep safetyHeaderSize buf = none) : NoMagicDropped buf
  | found {buf : List U8} {t : Token} {n : Nat}
      (hstep : frameStep safetyHeaderSize buf = some (t, n))
      (hdropped : ∀ hdr, t = .oversized hdr → NoMagic ((buf.drop 1).take safetyHeaderSize))
      (hrest : NoMagicDropped (buf.drop n)) : NoMagicDropped buf

theorem message_of_parsed (ts : List Token) :
    ((ts.flatMap fun t => t.parsed.toList).filter fun f => f.validateResult = .ok).map
        (fun f => (⟨f.header, f.payload⟩ : SafetyRxFrame)) =
      ts.flatMap Token.message := by
  rw [List.filter_flatMap, List.map_flatMap]
  refine List.flatMap_congr fun t _ => ?_
  cases t with
  | noise b => rfl
  | oversized hdr => rfl
  | frame f =>
      simp only [Token.parsed, Token.message, Option.toList_some]
      split
      · rename_i hok
        have hparsed : (ParsedFrame.ofBytes f).validateResult = .ok := hok
        rw [List.filter_cons_of_pos (by simpa using hparsed)]
        rfl
      · rename_i hbad
        have hparsed : (ParsedFrame.ofBytes f).validateResult ≠ .ok := hbad
        rw [List.filter_cons_of_neg (by simpa using hparsed)]
        rfl

/-- What the firmware drops with an oversized header, the host passes as noise. -/
theorem message_oversized {buf : List U8} (hlen : safetyHeaderSize ≤ buf.length)
    (hdropped : NoMagic ((buf.drop 1).take safetyHeaderSize)) :
    (tokens (frameStep 1) (buf.drop 1)).1.flatMap Token.message =
      (tokens (frameStep 1) (buf.drop safetyHeaderSize)).1.flatMap Token.message := by
  have hnoise : ∀ noise : List U8, (noise.map Token.noise).flatMap Token.message = [] := by
    intro noise
    rw [List.flatMap_map]
    exact List.flatMap_eq_nil_iff.mpr fun _ _ => rfl
  have hsplit : buf.drop 1 = (buf.drop 1).take 15 ++ buf.drop safetyHeaderSize := by
    have hdrop : buf.drop safetyHeaderSize = (buf.drop 1).drop 15 := by rw [List.drop_drop]; rfl
    rw [hdrop, List.take_append_drop]
  cases hrest : buf.drop safetyHeaderSize with
  | nil =>
      have h16 : safetyHeaderSize = 16 := rfl
      have hshort : (buf.drop 1).length ≤ safetyHeaderSize := by
        have hle := List.drop_eq_nil_iff.mp hrest
        rw [List.length_drop]
        omega
      rw [List.take_of_length_le hshort] at hdropped
      obtain ⟨n, htokens⟩ := tokens_noise_end incremental_host hdropped
      rw [htokens, hnoise, Scanner.Incremental.tokens_wait (frameStep_nil 1)]
      rfl
  | cons b rest =>
      have htake : (buf.drop 1).take safetyHeaderSize = (buf.drop 1).take 15 ++ [b] := by
        have hlen15 : ((buf.drop 1).take 15).length = 15 := by
          have h16 : safetyHeaderSize = 16 := rfl
          rw [List.length_take, List.length_drop]
          omega
        conv_lhs => rw [hsplit, hrest]
        rw [List.take_append, hlen15, List.take_of_length_le (by rw [hlen15]; decide)]
        rfl
      rw [htake] at hdropped
      rw [hsplit, hrest, tokens_noise incremental_host rest hdropped, List.flatMap_append, hnoise,
        List.nil_append]

theorem message_tokens_eq {bytes : List U8} (h : NoMagicDropped bytes) :
    (tokens (frameStep safetyHeaderSize) bytes).1.flatMap Token.message =
      (tokens (frameStep 1) bytes).1.flatMap Token.message := by
  induction h with
  | @wait buf hstep =>
      have hstep' : frameStep 1 buf = none := by rw [frameStep_skip 1 safetyHeaderSize, hstep]; rfl
      rw [Scanner.Incremental.tokens_wait hstep, Scanner.Incremental.tokens_wait hstep']
  | @found buf t n hstep hdropped _ ih =>
      have hstep' := frameStep_skip 1 safetyHeaderSize buf
      rw [hstep, Option.map_some] at hstep'
      rw [incremental_firmware.tokens_found hstep, incremental_host.tokens_found hstep',
        List.flatMap_cons, List.flatMap_cons, ih]
      cases t with
      | noise b => rfl
      | frame f => rfl
      | oversized hdr =>
          obtain ⟨-, -, ht, -⟩ | ⟨hlen, -, -, -, rfl⟩ | ⟨-, -, -, -, ht⟩ := frameStep_some hstep
          · cases ht
          · rw [← message_oversized hlen (hdropped hdr rfl)]
          · cases ht

/-- The firmware posts the valid frames of a scan that drops oversized headers
whole; these are the assembler's valid frames unless a magic is dropped. -/
theorem firmware_agrees (bytes : List U8) :
    (rxFeed {} bytes).2 =
        (tokens (frameStep safetyHeaderSize) bytes).1.flatMap Token.message ∧
      (NoMagicDropped bytes → ∀ chunks : List (List U8), chunks.flatten = bytes →
        (rxFeed {} bytes).2 =
          ((feeds FrameAssembler.feed [] chunks).1.filter fun f => f.validateResult = .ok).map
            fun f => ⟨f.header, f.payload⟩) := by
  refine ⟨by rw [rxFeed_eq_tokens], fun hdropped chunks hchunks => ?_⟩
  rw [rxFeed_eq_tokens, frameAssembler_feeds, hchunks, message_of_parsed]
  exact message_tokens_eq hdropped

/-- An oversized header with no magic in it costs no frame. -/
theorem firmware_agrees_zeros :
    let f := packFrame safetyFrameHeartbeat 1 0 []
    let bytes := [magicLo, magicHi, 1, 1, 0, 0, 0xFF, 0xFF, 0, 0, 0, 0, 0, 0, 0, 0] ++ f
    (rxFeed {} bytes).2 =
      ((feeds FrameAssembler.feed [] [bytes]).1.filter fun f => f.validateResult = .ok).map
        fun f => ⟨f.header, f.payload⟩ := by
  intro f bytes
  have hf : IsFrame f := isFrame_packFrame safetyFrameHeartbeat 1 0 (Nat.zero_le _)
  have hheader : frameStep safetyHeaderSize bytes =
      some (.oversized (bytes.take safetyHeaderSize), safetyHeaderSize) :=
    frameStep_oversized safetyHeaderSize (by decide) (by decide) (by decide)
  have hframe := frameStep_frame safetyHeaderSize hf []
  rw [List.append_nil] at hframe
  refine (firmware_agrees bytes).2 (.found hheader (fun _ _ => by decide) (.found hframe ?_ ?_))
    [bytes] rfl
  · exact fun _ h => Token.noConfusion h
  · have hrest : bytes.drop safetyHeaderSize = f := rfl
    rw [hrest, List.drop_length]
    exact .wait (frameStep_nil _)

/-- Eight bytes that look like the start of an oversized frame, and a heartbeat. -/
def swallowed : List U8 :=
  [magicLo, magicHi, 1, 1, 0, 0, 0xFF, 0xFF] ++ packFrame safetyFrameHeartbeat 1 0 []

theorem firmware_swallows_frame :
    (rxFeed {} swallowed).2 ≠
      ((feeds FrameAssembler.feed [] [swallowed]).1.filter fun f => f.validateResult = .ok).map
        fun f => ⟨f.header, f.payload⟩ := by
  decide +kernel

-- The other way round: the magic in an oversized header leads the assembler into
-- the heartbeat behind it, and only the firmware finds that.
example :
    let header := [magicLo, magicHi, 1, 1, 0, 0, 0xFF, 0xFF, magicLo, magicHi, 1, 1, 0, 0, 8, 0]
    let f := packFrame safetyFrameHeartbeat 1 0 []
    (rxFeed {} (header ++ f)).2 = [⟨.ofBytes f, []⟩] ∧
      (feeds FrameAssembler.feed [] [header ++ f]).1.filter (fun f => f.validateResult = .ok) =
        [] := by
  decide +kernel

end SafetyCopro
