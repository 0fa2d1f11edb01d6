import SafetyCopro.Bridge.FaultInjector
import SafetyCopro.Protocol.Detection
import SafetyCopro.System.Receivers

/-!
The bridge between two endpoints. Without faults it passes on the bytes it
reads, up to what may be the start of a frame; over valid frames its injector
drops and corrupts exactly the frames that are counted out, and the receiver
sees just that.
-/

namespace SafetyCopro

open Scanner (feeds tokens)

/-- The framer keeps or puts out every byte, in order. -/
theorem byteFramer_conserves (chunks : List (List U8)) :
    (feeds ByteFramer.feed [] chunks).1.flatten ++ (feeds ByteFramer.feed [] chunks).2 =
      chunks.flatten := by
  obtain ⟨hpieces, hrest⟩ := byteFramer_feeds chunks
  rw [hpieces.flatten, hrest, incremental_host.flatMap_tokens token_bytes]

/-! ### Runs of the bridge -/

section Directions
variable (dir : Direction)

theorem readBytes_concat (inputs : List BridgeInput) (input : BridgeInput) :
    readBytes dir (inputs ++ [input]) =
      readBytes dir inputs ++ if input.dir = dir then input.data else [] := by
  rw [readBytes, readBytes, List.filter_append, List.flatMap_append]
  split
  · rename_i hdir
    rw [List.filter_cons_of_pos (by simpa using hdir)]
    simp
  · rename_i hdir
    rw [List.filter_cons_of_neg (by simpa using hdir)]
    rfl

theorem passedOf_append (events es : List Passed) :
    passedOf dir (events ++ es) = passedOf dir events ++ passedOf dir es :=
  List.filter_append ..

theorem passedOf_eq {es : List Passed} {dir' : Direction} (h : ∀ p ∈ es, p.dir = dir') :
    passedOf dir es = if dir' = dir then es else [] := by
  rw [passedOf]
  split
  · rename_i hdir
    exact List.filter_eq_self.mpr fun p hp => by simp [h p hp, hdir]
  · rename_i hdir
    exact List.filter_eq_nil_iff.mpr fun p hp => by simp [h p hp, hdir]

end Directions

/-- What holds behind the reads of the bridge and the pieces it passed. -/
structure BridgeInv (cfg : InjectorConfig) (inputs : List BridgeInput) (events : List Passed)
    (b : Bridge) : Prop where
  framed : ∀ dir, ∃ chunks : List (List U8), chunks.flatten = readBytes dir inputs ∧
    feeds ByteFramer.feed [] chunks = ((passedOf dir events).map Passed.piece, b.framer dir)
  injector : b.injector = ⟨cfg, events.length⟩
  numbers : events.map Passed.number = List.range' 1 events.length
  made : ∀ p ∈ events, p.By cfg
  written : (∀ input ∈ inputs, .failed ∉ input.results) → ∀ p ∈ events, p.written = p.sent

namespace BridgeInv
variable {cfg : InjectorConfig} {inputs : List BridgeInput} {events : List Passed} {b : Bridge}

theorem init (cfg : InjectorConfig) : BridgeInv cfg [] [] { injector := { cfg } } where
  framed := fun _ => ⟨[], rfl, rfl⟩
  injector := rfl
  numbers := rfl
  made := List.forall_mem_nil _
  written := fun _ => List.forall_mem_nil _

/-- A read that brings something, with what the framer makes of it. -/
theorem read (h : BridgeInv cfg inputs events b) (input : BridgeInput) {pieces : List (List U8)}
    {buf : List U8} (hfeed : ByteFramer.feed (b.framer input.dir) input.data = (pieces, buf)) :
    BridgeInv cfg (inputs ++ [input])
      (events ++ (forwardPieces input.dir b.injector pieces input.results).2)
      { injector := (forwardPieces input.dir b.injector pieces input.results).1
        framer := Function.update b.framer input.dir buf } := by
  have hby := @forwardPieces_by input.dir b.injector pieces input.results
  have hpieces := @forwardPieces_pieces input.dir b.injector pieces input.results
  have hnumbers := @forwardPieces_numbers input.dir b.injector pieces input.results
  have hwritten := @forwardPieces_written input.dir b.injector pieces input.results
  rw [forwardPieces_injector]
  generalize (forwardPieces input.dir b.injector pieces input.results).2 = es at *
  have hlen : es.length = pieces.length := by rw [← hpieces, List.length_map]
  have hcount : b.injector.frameCounter = events.length := by rw [h.injector]
  refine ⟨fun dir => ?_, ?_, ?_, fun p hp => ?_, fun hresults p hp => ?_⟩
  · obtain ⟨chunks, hchunks, hfeeds⟩ := h.framed dir
    rw [readBytes_concat, passedOf_append, passedOf_eq dir fun p hp => (hby p hp).1]
    dsimp only
    by_cases hdir : input.dir = dir
    · subst hdir
      refine ⟨chunks ++ [input.data], ?_, ?_⟩
      · rw [List.flatten_append, List.flatten_singleton, hchunks, if_pos rfl]
      · rw [Scanner.feeds_concat, hfeeds, hfeed, if_pos rfl, List.map_append, hpieces,
          Function.update_self]
    · refine ⟨chunks, ?_, ?_⟩
      · rw [if_neg hdir, List.append_nil, hchunks]
      · rw [if_neg hdir, List.append_nil, hfeeds, Function.update_of_ne (Ne.symm hdir)]
  · rw [h.injector, List.length_append, hlen]
  · rw [List.map_append, h.numbers, hnumbers, hcount, List.length_append, ← hlen, Nat.add_comm,
      List.range'_append_1]
  · obtain hp | hp := List.mem_append.mp hp
    · exact h.made p hp
    · have hmade := (hby p hp).2
      rwa [h.injector] at hmade
  · obtain hp | hp := List.mem_append.mp hp
    · exact h.written (fun i hi => hresults i (List.mem_append_left _ hi)) p hp
    · exact hwritten (hresults input (List.mem_append_right _ List.mem_cons_self)) p hp

theorem step (h : BridgeInv cfg inputs events b) (input : BridgeInput) :
    BridgeInv cfg (inputs ++ [input]) (events ++ (b.step input).2) (b.step input).1 := by
  rw [Bridge.step]
  split
  · rename_i hdata
    rw [List.append_nil]
    refine ⟨fun dir => ?_, h.injector, h.numbers, h.made, fun hresults => ?_⟩
    · rw [readBytes_concat, hdata, ite_self, List.append_nil]
      exact h.framed dir
    · exact h.written fun i hi => hresults i (List.mem_append_left _ hi)
  · exact h.read input rfl

end BridgeInv

theorem bridgeInv_run (cfg : InjectorConfig) (inputs : List BridgeInput) :
    BridgeInv cfg inputs (Machine.outputs Bridge.step { injector := { cfg } } inputs)
      (Machine.after Bridge.step { injector := { cfg } } inputs) :=
  Machine.run_history (fun _ _ _ input h => h.step input) (BridgeInv.init cfg) inputs

/-! ### Without faults -/

theorem passedOf_sent {cfg : InjectorConfig} (hdrop : cfg.dropEvery ≤ 0)
    (hcorrupt : cfg.corruptEvery ≤ 0) {p : Passed} (h : p.By cfg) : p.sent = p.piece := by
  obtain ⟨inj, rfl, -, hprocessed⟩ := h
  obtain ⟨hforwarded, hframe⟩ := FaultInjector.process_off p.dir hdrop hcorrupt p.piece
  rw [Passed.sent, hprocessed, if_pos hforwarded, hframe]

/-- What the framer puts out and keeps is what it was fed. So with dropping and
corrupting off and no write failing, what the bridge has written in a direction
is what it has read there, up to the bytes its framer keeps. -/
theorem bridge_transparent :
    (∀ chunks : List (List U8),
      (feeds ByteFramer.feed [] chunks).1.flatten ++ (feeds ByteFramer.feed [] chunks).2 =
        chunks.flatten) ∧
    ∀ (cfg : InjectorConfig) (inputs : List BridgeInput), cfg.dropEvery ≤ 0 →
      cfg.corruptEvery ≤ 0 → (∀ input ∈ inputs, .failed ∉ input.results) → ∀ dir,
      writtenBytes dir (Machine.outputs Bridge.step { injector := { cfg } } inputs) <+:
          readBytes dir inputs ∧
        (readBytes dir inputs).length ≤
          (writtenBytes dir (Machine.outputs Bridge.step { injector := { cfg } } inputs)).length +
            271 := by
  refine ⟨byteFramer_conserves, fun cfg inputs hdrop hcorrupt hresults dir => ?_⟩
  have hrun := bridgeInv_run cfg inputs
  obtain ⟨chunks, hchunks, hfeeds⟩ := hrun.framed dir
  generalize Machine.outputs Bridge.step { injector := { cfg } } inputs = events at hrun hfeeds ⊢
  have hwritten : writtenBytes dir events = ((passedOf dir events).map Passed.piece).flatten := by
    rw [writtenBytes, ← List.flatMap_def]
    refine List.flatMap_congr fun p hp => ?_
    have hmem := (List.mem_filter.mp hp).1
    rw [hrun.written hresults p hmem, passedOf_sent hdrop hcorrupt (hrun.made p hmem)]
  have hconserves := byteFramer_conserves chunks
  have hresidual := residual_length chunks.flatten
  rw [← (byteFramer_feeds chunks).2, hfeeds] at hresidual
  rw [hfeeds, hchunks, ← hwritten] at hconserves
  rw [← hconserves]
  refine ⟨List.prefix_append _ _, ?_⟩
  rw [List.length_append]
  exact Nat.add_le_add_left hresidual _

/-- Noise, half a frame, and a write that is short and interrupted. -/
def noisyReads : List BridgeInput :=
  [⟨.leftToRight, [1, 2, 3], [.wrote 1, .eintr]⟩, ⟨.rightToLeft, [magicLo, magicHi, 1], []⟩]

theorem bridge_transparent_noise :
    writtenBytes .leftToRight (Machine.outputs Bridge.step { injector := { cfg := {} } }
        noisyReads) <+: readBytes .leftToRight noisyReads :=
  (bridge_transparent.2 {} noisyReads (by decide) (by decide) (by decide) .leftToRight).1

/-! ### Over valid frames -/

open FaultInjector (Drops Corrupts)

/-- Bytes that are all frames are cut into them. -/
theorem Grouped.eq_frames {frames pieces : List (List U8)}
    (h : Grouped (frames.map Token.frame) pieces) (hpieces : ∀ piece ∈ pieces, piece ≠ []) :
    pieces = frames := by
  generalize hts : frames.map Token.frame = ts at h
  induction h generalizing frames with
  | nil => exact (List.map_eq_nil_iff.mp hts).symm
  | frame hframe _ ih =>
      obtain ⟨f, rest, rfl, hf, hrest⟩ := List.map_eq_cons_iff.mp hts
      obtain ⟨-, htail⟩ := List.forall_mem_cons.mp hpieces
      rw [Token.frame.inj hf, ih htail hrest]
  | @passed between ts pieces hbetween hpiece _ ih =>
      obtain ⟨first, last, rfl, hfirst, hlast⟩ := List.map_eq_append_iff.mp hts
      obtain ⟨hne, htail⟩ := List.forall_mem_cons.mp hpieces
      -- nothing stands between frames
      cases first with
      | nil =>
          rw [← hfirst] at hne
          exact absurd rfl hne
      | cons f first =>
          have hnone := hbetween (.frame f) (hfirst ▸ List.mem_cons_self)
          cases hnone

theorem byteLoop_ne_nil (fuel : Nat) (buf : List U8) :
    ∀ piece ∈ (byteLoop fuel buf).1, piece ≠ [] := by
  have hnoise : ∀ buf : List U8, ∀ piece ∈ noisePiece buf, piece ≠ [] := by
    intro buf piece hpiece hnil
    rw [noisePiece] at hpiece
    split at hpiece
    · rename_i hpos
      rw [List.mem_singleton.mp hpiece] at hnil
      exact take_huntMagic_ne_nil hpos hnil
    · cases hpiece
  induction fuel generalizing buf with
  | zero => exact List.forall_mem_nil _
  | succ fuel ih =>
      rw [byteLoop, byteTurn_eq]
      cases hstep : frameStep 1 (buf.drop (huntMagic buf).1) with
      | none => exact hnoise buf
      | some r =>
          obtain ⟨t, n⟩ := r
          have hprogress := incremental_host.progress hstep
          have htoken : t.bytes ≠ [] := by
            rw [token_bytes hstep]
            intro hnil
            obtain hzero | hempty := List.take_eq_nil_iff.mp hnil
            · omega
            · rw [hempty, List.length_nil] at hprogress
              omega
          intro piece hpiece
          obtain hpiece | hpiece := List.mem_append.mp hpiece
          · obtain hpiece | hpiece := List.mem_append.mp hpiece
            · exact hnoise buf piece hpiece
            · rwa [List.mem_singleton.mp hpiece]
          · exact ih _ piece hpiece

theorem byteFramer_ne_nil (buf : List U8) (chunks : List (List U8)) :
    ∀ piece ∈ (feeds ByteFramer.feed buf chunks).1, piece ≠ [] := by
  induction chunks generalizing buf with
  | nil => exact List.forall_mem_nil _
  | cons c chunks ih =>
      intro piece hpiece
      obtain hpiece | hpiece := List.mem_append.mp hpiece
      · exact byteLoop_ne_nil _ _ piece hpiece
      · exact ih _ piece hpiece

theorem byteFramer_valid {frames chunks : List (List U8)} (h : ∀ f ∈ frames, IsFrame f)
    (hchunks : chunks.flatten = frames.flatten) :
    (feeds ByteFramer.feed [] chunks).1 = frames := by
  have hpieces := (byteFramer_feeds chunks).1
  rw [hchunks, tokens_frames incremental_host h] at hpieces
  exact hpieces.eq_frames (byteFramer_ne_nil [] chunks)

theorem corrupt_ne {frame : List U8} (h : IsFrame frame) :
    frame.modify 12 (· ^^^ 0xFF#8) ≠ frame := by
  have h16 : safetyHeaderSize = 16 := rfl
  have hlen := h.length_le.1
  intro heq
  have hsame := congrArg (fun buf => byteAt buf 12) heq
  simp only [byteAt_modify_xor 0xFF#8 (by omega : 12 < frame.length), if_true] at hsame
  have hzero := congrArg (byteAt frame 12 ^^^ ·) hsame
  rw [← BitVec.xor_assoc, BitVec.xor_self, BitVec.zero_xor] at hzero
  exact absurd hzero (by decide)

/-- A frame with its checksum corrupted keeps everything else. -/
theorem corrupt_frame {frame : List U8} (h : ValidFrame frame) :
    IsFrame (frame.modify 12 (· ^^^ 0xFF#8)) ∧
      (SafetyFrameHeader.ofBytes (frame.modify 12 (· ^^^ 0xFF#8))).type =
        (SafetyFrameHeader.ofBytes frame).type ∧
      (SafetyFrameHeader.ofBytes (frame.modify 12 (· ^^^ 0xFF#8))).sequenceId =
        (SafetyFrameHeader.ofBytes frame).sequenceId ∧
      (SafetyFrameHeader.ofBytes (frame.modify 12 (· ^^^ 0xFF#8))).payloadLength =
        (SafetyFrameHeader.ofBytes frame).payloadLength ∧
      (frame.modify 12 (· ^^^ 0xFF#8)).drop safetyHeaderSize = frame.drop safetyHeaderSize ∧
      safetyFrameValidate (frame.modify 12 (· ^^^ 0xFF#8)) = .badChecksum := by
  have h16 : safetyHeaderSize = 16 := rfl
  have hlen := h.isFrame.length_le.1
  have hbyte : ∀ i, byteAt (frame.modify 12 (· ^^^ 0xFF#8)) i ≠ byteAt frame i → i = 12 := by
    intro i hi
    by_contra hne
    exact hi (by rw [byteAt_modify, if_neg fun hand => hne hand.1])
  have haltered : Altered frame (frame.modify 12 (· ^^^ 0xFF#8)) := by
    refine ⟨List.length_modify _ _ _, fun i hi => ?_⟩
    rw [hbyte i hi]
    exact ⟨by omega, by decide⟩
  have hne := corrupt_ne h.isFrame
  have hann := @announced_modify frame 12 (· ^^^ 0xFF#8) (by decide) (by decide)
  have hmagic := @u16At_modify frame 12 (· ^^^ 0xFF#8) 0 (by decide) (by decide)
  refine ⟨⟨hmagic.trans h.isFrame.1, ?_, ?_⟩, ?_, ?_, ?_, ?_, ?_⟩
  · rw [hann]
    exact h.isFrame.2.1
  · rw [List.length_modify, hann]
    exact h.isFrame.2.2
  · exact (byteAt_modify _ _ _ _).trans (if_neg fun hand => absurd hand.1 (by decide))
  · exact u16At_modify _ (by decide) (by decide)
  · exact u16At_modify _ (by decide) (by decide)
  · exact List.drop_modify_of_lt _ _ _ _ (by decide)
  · refine haltered.validate_checksumOnly h.valid hne fun i hi => ?_
    have h12 := hbyte i hi
    omega

/-- What the injector makes of a valid frame that it does not drop. -/
def sentFrame (cfg : InjectorConfig) (p : Passed) : List U8 :=
  if Corrupts cfg p.number then p.piece.modify 12 (· ^^^ 0xFF#8) else p.piece

theorem Passed.sent_eq {cfg : InjectorConfig} {p : Passed} (h : p.By cfg)
    (hframe : ValidFrame p.piece) :
    p.sent = if ¬ Drops cfg p.number p.piece then sentFrame cfg p else [] := by
  obtain ⟨inj, rfl, hnumber, hprocessed⟩ := h
  obtain ⟨hforwarded, hkept⟩ :=
    @FaultInjector.process_frame inj p.piece p.dir hframe.isFrame.length_le.1
  rw [← hnumber] at hforwarded hkept
  rw [Passed.sent, hprocessed, hforwarded]
  by_cases hdrop : Drops inj.cfg p.number p.piece
  · simp [hdrop]
  · rw [hkept hdrop, if_pos (decide_eq_true hdrop), if_pos hdrop, sentFrame]

theorem sentFrame_isFrame {cfg : InjectorConfig} {p : Passed} (h : ValidFrame p.piece) :
    IsFrame (sentFrame cfg p) := by
  rw [sentFrame]
  split
  · exact (corrupt_frame h).1
  · exact h.isFrame

theorem flatMap_ite {α β : Type} (P : α → Prop) [DecidablePred P] (f : α → List β)
    (l : List α) :
    (l.flatMap fun a => if P a then f a else []) = ((l.filter fun a => P a).map f).flatten := by
  induction l with
  | nil => rfl
  | cons a l ih =>
      rw [List.flatMap_cons, ih]
      by_cases ha : P a
      · rw [if_pos ha, List.filter_cons_of_pos (by simpa using ha), List.map_cons,
          List.flatten_cons]
      · rw [if_neg ha, List.filter_cons_of_neg (by simpa using ha), List.nil_append]

/-- What a receiver is told of a frame: type, sequence number, length, payload
and result. -/
def ParsedFrame.report (f : ParsedFrame) : U8 × U16 × U16 × List U8 × SafetyValidateResult :=
  (f.header.type, f.header.sequenceId, f.header.payloadLength, f.payload, f.validateResult)

theorem report_sentFrame {cfg : InjectorConfig} {p : Passed} (h : ValidFrame p.piece) :
    (ParsedFrame.ofBytes (sentFrame cfg p)).report =
      ((SafetyFrameHeader.ofBytes p.piece).type, (SafetyFrameHeader.ofBytes p.piece).sequenceId,
        (SafetyFrameHeader.ofBytes p.piece).payloadLength, p.piece.drop safetyHeaderSize,
        if Corrupts cfg p.number then .badChecksum else .ok) := by
  rw [sentFrame, ParsedFrame.report, ParsedFrame.ofBytes]
  split
  · obtain ⟨-, htype, hseq, hlen, hpayload, hvalid⟩ := corrupt_frame h
    simp only [htype, hseq, hlen, hpayload, hvalid]
  · simp only [h.valid]

/-- The bridge over two streams of valid frames, cut and interleaved in any way.
The pieces it counts are the frames; the receiver of a direction finds those of
its frames that are not dropped, in order, with what they say, and with a wrong
checksum just where it is corrupted. -/
theorem injection_exact (cfg : InjectorConfig) {inputs : List BridgeInput}
    {frames : Direction → List (List U8)} (hframes : ∀ dir, ∀ f ∈ frames dir, ValidFrame f)
    (hread : ∀ dir, readBytes dir inputs = (frames dir).flatten) :
    let events := Machine.outputs Bridge.step { injector := { cfg } } inputs
    events.map Passed.number = List.range' 1 events.length ∧
    ∀ dir,
      (passedOf dir events).map Passed.piece = frames dir ∧
      (∀ chunks : List (List U8), chunks.flatten = sentBytes dir events →
        (feeds FrameAssembler.feed [] chunks).1.map ParsedFrame.report =
          ((passedOf dir events).filter fun p => ¬ Drops cfg p.number p.piece).map fun p =>
            ((SafetyFrameHeader.ofBytes p.piece).type,
              (SafetyFrameHeader.ofBytes p.piece).sequenceId,
              (SafetyFrameHeader.ofBytes p.piece).payloadLength,
              p.piece.drop safetyHeaderSize,
              if Corrupts cfg p.number then .badChecksum else .ok)) ∧
      ((∀ input ∈ inputs, .failed ∉ input.results) →
        writtenBytes dir events = sentBytes dir events) := by
  intro events
  have hrun := bridgeInv_run cfg inputs
  refine ⟨hrun.numbers, fun dir => ?_⟩
  have hpieces : (passedOf dir events).map Passed.piece = frames dir := by
    obtain ⟨chunks, hchunks, hfeeds⟩ := hrun.framed dir
    have hvalid := @byteFramer_valid (frames dir) chunks (fun f hf => (hframes dir f hf).isFrame)
      (hchunks.trans (hread dir))
    rw [hfeeds] at hvalid
    exact hvalid
  have hmade : ∀ p ∈ passedOf dir events, p.By cfg ∧ ValidFrame p.piece := by
    intro p hp
    refine ⟨hrun.made p (List.mem_filter.mp hp).1, hframes dir p.piece ?_⟩
    rw [← hpieces]
    exact List.mem_map_of_mem hp
  refine ⟨hpieces, fun chunks hchunks => ?_, fun hresults => ?_⟩
  · have hsent : sentBytes dir events =
        (((passedOf dir events).filter fun p => ¬ Drops cfg p.number p.piece).map
          (sentFrame cfg)).flatten := by
      rw [sentBytes, ← flatMap_ite]
      exact List.flatMap_congr fun p hp => Passed.sent_eq (hmade p hp).1 (hmade p hp).2
    generalize hkept : ((passedOf dir events).filter fun p => ¬ Drops cfg p.number p.piece) = kept
      at hsent ⊢
    have hvalid : ∀ p ∈ kept, ValidFrame p.piece := by
      intro p hp
      rw [← hkept] at hp
      exact (hmade p (List.mem_filter.mp hp).1).2
    have hisFrame : ∀ f ∈ kept.map (sentFrame cfg), IsFrame f := by
      intro f hf
      obtain ⟨p, hp, rfl⟩ := List.mem_map.mp hf
      exact sentFrame_isFrame (hvalid p hp)
    rw [frameAssembler_feeds, hchunks, hsent, tokens_frames incremental_host hisFrame,
      List.flatMap_map, List.flatMap_map, List.map_flatMap]
    rw [List.map_eq_flatMap]
    exact List.flatMap_congr fun p hp => congrArg (fun r => [r]) (report_sentFrame (hvalid p hp))
  · rw [writtenBytes, sentBytes]
    exact List.flatMap_congr fun p hp => hrun.written hresults p (List.mem_filter.mp hp).1

/-- Two heartbeats and a command, every second frame dropped if it is a
heartbeat, every third corrupted. -/
def countedReads : List BridgeInput :=
  [⟨.leftToRight, packFrame safetyFrameHeartbeat 1 0 [], []⟩,
    ⟨.leftToRight, packFrame safetyFrameHeartbeat 2 0 [], []⟩,
    ⟨.rightToLeft, buildCommand 7 0 safetyCmdGetStatus 0 0 0, []⟩]

def countedFrames : Direction → List (List U8)
  | .leftToRight => [packFrame safetyFrameHeartbeat 1 0 [], packFrame safetyFrameHeartbeat 2 0 []]
  | .rightToLeft => [buildCommand 7 0 safetyCmdGetStatus 0 0 0]

theorem injection_exact_counted :
    (feeds FrameAssembler.feed []
      [sentBytes .leftToRight (Machine.outputs Bridge.step
        { injector := { cfg := { dropEvery := 2, dropType := 1, corruptEvery := 3 } } }
        countedReads)]).1.map ParsedFrame.report = [(safetyFrameHeartbeat, 1, 0, [], .ok)] := by
  have hexact := @injection_exact { dropEvery := 2, dropType := 1, corruptEvery := 3 } countedReads
    countedFrames (by rintro (_ | _) <;> decide +kernel) (by rintro (_ | _) <;> decide +kernel)
  rw [(hexact.2 .leftToRight).2.1 [_] (List.flatten_singleton ..)]
  decide +kernel

end SafetyCopro
