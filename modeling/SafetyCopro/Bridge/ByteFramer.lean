import SafetyCopro.Protocol.Framing

/-!
The framer of the bridge, `pty_bridge.cpp`. It forwards every byte: a whole
frame as one piece, and what stands between frames in pieces of its own, cut
where a call happens to end.
-/

namespace SafetyCopro

/-- The inner loop: how many bytes stand before the next magic, and whether
there is one. Without one the hunt stops in front of the last byte. -/
def huntMagic : List U8 → Nat × Bool
  | a :: b :: rest =>
      if u16At (a :: b :: rest) 0 = safetyProtoMagic then (0, true)
      else
        let (hunt, found) := huntMagic (b :: rest)
        (hunt + 1, found)
  | _ => (0, false)

/-- One turn of the loop of `ByteFramer::feed` on the bytes from the cursor on:
the pieces it puts out, how far the cursor moves, and whether the loop goes on. -/
def byteTurn (buf : List U8) : List (List U8) × Nat × Bool :=
  let (hunt, found) := huntMagic buf
  let noise := if 0 < hunt then [buf.take hunt] else []
  let rest := buf.drop hunt
  if ¬ found then (noise, hunt, false)
  else if rest.length < safetyHeaderSize then (noise, hunt, false)
  else
    let hdr := SafetyFrameHeader.ofBytes rest
    if hdr.payloadLength.toNat > safetyMaxPayload then
      (noise ++ [rest.take 1], hunt + 1, true)
    else
      let total := safetyHeaderSize + hdr.payloadLength.toNat
      if rest.length < total then (noise, hunt, false)
      else (noise ++ [rest.take total], hunt + total, true)

/-- The loop. A turn that goes on consumes a byte, so fuel beyond the length of
the buffer is never used. -/
def byteLoop : Nat → List U8 → List (List U8) × List U8
  | 0, buf => ([], buf)
  | fuel + 1, buf =>
      let (pieces, n, more) := byteTurn buf
      if more then
        let r := byteLoop fuel (buf.drop n)
        (pieces ++ r.1, r.2)
      else (pieces, buf.drop n)

/-- `ByteFramer::feed`: the pieces it puts out and the new residual buffer. -/
def ByteFramer.feed (buf data : List U8) : List (List U8) × List U8 :=
  byteLoop ((buf ++ data).length + 1) (buf ++ data)

/-! ### Pieces as groups of tokens -/

/-- The bytes a host's cursor passes with a token. -/
def Token.bytes : Token → List U8
  | .noise b => [b]
  | .oversized hdr => hdr.take 1
  | .frame bytes => bytes

/-- The pieces put out for a list of tokens: each frame is a piece, and what
stands between is cut in pieces that are no frames. -/
inductive Grouped : List Token → List (List U8) → Prop
  | nil : Grouped [] []
  | frame {bytes : List U8} {ts : List Token} {pieces : List (List U8)} (h : IsFrame bytes) :
      Grouped ts pieces → Grouped (.frame bytes :: ts) (bytes :: pieces)
  | passed {between ts : List Token} {pieces : List (List U8)}
      (hbetween : ∀ t ∈ between, t.wholeFrame = none)
      (h : ¬ IsFrame (between.flatMap Token.bytes)) :
      Grouped ts pieces → Grouped (between ++ ts) (between.flatMap Token.bytes :: pieces)

namespace Grouped

theorem append {ts ts' : List Token} {pieces pieces' : List (List U8)} (h : Grouped ts pieces)
    (h' : Grouped ts' pieces') : Grouped (ts ++ ts') (pieces ++ pieces') := by
  induction h with
  | nil => exact h'
  | frame hframe _ ih => exact .frame hframe ih
  | passed hbetween hpiece _ ih =>
      rw [List.append_assoc]
      exact .passed hbetween hpiece ih

/-- No byte is lost or added. -/
theorem flatten {ts : List Token} {pieces : List (List U8)} (h : Grouped ts pieces) :
    pieces.flatten = ts.flatMap Token.bytes := by
  induction h with
  | nil => rfl
  | frame _ _ ih => rw [List.flatten_cons, ih, List.flatMap_cons, Token.bytes]
  | passed _ _ _ ih => rw [List.flatten_cons, ih, List.flatMap_append]

theorem filter_isFrame {ts : List Token} {pieces : List (List U8)} (h : Grouped ts pieces) :
    pieces.filter (fun piece => IsFrame piece) = ts.flatMap fun t => t.wholeFrame.toList := by
  induction h with
  | nil => rfl
  | frame hframe _ ih =>
      rw [List.filter_cons_of_pos (by simpa using hframe), ih]
      rfl
  | passed hbetween hpiece _ ih =>
      have hnone : (List.flatMap (fun t : Token => t.wholeFrame.toList) _) = [] :=
        List.flatMap_eq_nil_iff.mpr fun t ht => by rw [hbetween t ht, Option.toList_none]
      rw [List.filter_cons_of_neg (by simpa using hpiece), ih, List.flatMap_append, hnone,
        List.nil_append]

theorem flatMap_noise (noise : List U8) : (noise.map Token.noise).flatMap Token.bytes = noise := by
  rw [List.flatMap_map]
  exact List.flatMap_singleton' _

/-- Behind noise, a frame is a piece of its own. -/
theorem split_frame {noise f : List U8} {ts : List Token} {pieces : List (List U8)}
    (h : Grouped (noise.map Token.noise ++ .frame f :: ts) pieces) :
    ∃ before after, pieces = before ++ f :: after ∧ before.flatten = noise ∧ Grouped ts after := by
  generalize hall : noise.map Token.noise ++ .frame f :: ts = all at h
  induction h generalizing noise with
  | nil => exact absurd hall (by simp)
  | frame _ hrest _ =>
      cases noise with
      | nil =>
          obtain ⟨hf, rfl⟩ := List.cons.inj hall
          obtain rfl := Token.frame.inj hf
          exact ⟨[], _, rfl, rfl, hrest⟩
      | cons b noise => exact Token.noConfusion (List.cons.inj hall).1
  | @passed between _ pieces hbetween _ _ ih =>
      obtain ⟨cut, hcut, hrest⟩ : ∃ cut, noise.map Token.noise = between ++ cut ∧
          cut ++ .frame f :: ts = _ := by
        obtain ⟨extra, hextra, hframe⟩ | ⟨cut, hcut, hrest⟩ := List.append_eq_append_iff.mp hall
        · cases extra with
          | nil => exact ⟨[], by simp [hextra], by simpa using hframe⟩
          | cons t extra =>
              -- the frame is none of the tokens between
              obtain ⟨rfl, -⟩ := List.cons.inj hframe
              have hnone : some f = none := hbetween (.frame f) (by simp [hextra])
              cases hnone
        · exact ⟨cut, hcut, hrest.symm⟩
      obtain ⟨first, last, rfl, rfl, rfl⟩ := List.map_eq_append_iff.mp hcut
      obtain ⟨before, after, rfl, rfl, hafter⟩ := ih hrest
      refine ⟨first :: before, after, ?_, rfl, hafter⟩
      rw [flatMap_noise, List.cons_append]

end Grouped

/-! ### The loop -/

theorem huntMagic_tokens (buf : List U8) :
    Scanner.tokens (frameStep 1) buf =
      ((buf.take (huntMagic buf).1).map Token.noise ++
          (Scanner.tokens (frameStep 1) (buf.drop (huntMagic buf).1)).1,
        (Scanner.tokens (frameStep 1) (buf.drop (huntMagic buf).1)).2) := by
  induction buf using huntMagic.induct with
  | case1 a b rest hmagic =>
      simp only [huntMagic, hmagic, if_true]
      rfl
  | case2 a b rest hmagic hunt found heq ih =>
      have hstep := @frameStep_noise 1 a b rest (mt u16At_eq_magic.mpr hmagic)
      rw [incremental_host.tokens_found hstep, List.drop_one, List.tail_cons, ih]
      simp only [huntMagic, hmagic, if_false]
      rfl
  | case3 buf hshort =>
      rw [huntMagic]
      · rfl
      · exact hshort

/-- Where the hunt ends there is a magic, or too little to tell. -/
theorem huntMagic_rest (buf : List U8) :
    if (huntMagic buf).2 then
      2 ≤ (buf.drop (huntMagic buf).1).length ∧
        u16At (buf.drop (huntMagic buf).1) 0 = safetyProtoMagic
    else (buf.drop (huntMagic buf).1).length < 2 := by
  induction buf using huntMagic.induct with
  | case1 a b rest hmagic =>
      simp only [huntMagic, hmagic, if_true]
      exact ⟨by simp, hmagic⟩
  | case2 a b rest hmagic hunt found heq ih =>
      simp only [huntMagic, hmagic, if_false]
      exact ih
  | case3 buf hshort =>
      obtain _ | ⟨a, _ | ⟨b, rest⟩⟩ := buf
      · exact Nat.zero_lt_two
      · exact Nat.one_lt_two
      · exact absurd rfl (hshort a b rest)

/-- The bytes before the magic do not look like a frame. -/
theorem not_isFrame_noise {buf : List U8} (h : 0 < (huntMagic buf).1) :
    ¬ IsFrame (buf.take (huntMagic buf).1) := by
  rintro ⟨hmagic, -, hlen⟩
  have h16 : safetyHeaderSize = 16 := rfl
  obtain _ | ⟨a, _ | ⟨b, rest⟩⟩ := buf
  · exact absurd h (Nat.lt_irrefl 0)
  · exact absurd h (Nat.lt_irrefl 0)
  · by_cases hstart : u16At (a :: b :: rest) 0 = safetyProtoMagic
    · rw [huntMagic, if_pos hstart] at h
      exact Nat.lt_irrefl 0 h
    · rw [List.length_take] at hlen
      obtain ⟨n, hn⟩ : ∃ n, (huntMagic (a :: b :: rest)).1 = n + 2 :=
        Nat.exists_eq_add_of_le' (by omega)
      rw [hn] at hmagic
      exact hstart (u16At_eq_magic.mpr (u16At_eq_magic.mp hmagic))

theorem take_huntMagic_ne_nil {buf : List U8} (h : 0 < (huntMagic buf).1) :
    buf.take (huntMagic buf).1 ≠ [] := by
  intro hnil
  obtain hzero | rfl := List.take_eq_nil_iff.mp hnil
  · omega
  · exact Nat.lt_irrefl 0 h

def noisePiece (buf : List U8) : List (List U8) :=
  if 0 < (huntMagic buf).1 then [buf.take (huntMagic buf).1] else []

theorem wholeFrame_noise (noise : List U8) :
    ∀ t ∈ noise.map Token.noise, t.wholeFrame = none := by
  intro t ht
  obtain ⟨b, -, rfl⟩ := List.mem_map.mp ht
  rfl

theorem grouped_noisePiece (buf : List U8) :
    Grouped ((buf.take (huntMagic buf).1).map Token.noise) (noisePiece buf) := by
  unfold noisePiece
  split
  · rename_i hpos
    have hbytes := Grouped.flatMap_noise (buf.take (huntMagic buf).1)
    have hpiece := Grouped.passed (wholeFrame_noise _)
      (by rw [hbytes]; exact not_isFrame_noise hpos) .nil
    rwa [hbytes, List.append_nil] at hpiece
  · rename_i hpos
    rw [Nat.eq_zero_of_not_pos hpos]
    exact .nil

theorem not_isFrame_of_length {bytes : List U8} (h : bytes.length ≤ 1) : ¬ IsFrame bytes := by
  rintro ⟨-, -, hlen⟩
  have h16 : safetyHeaderSize = 16 := rfl
  omega

theorem Grouped.single {t : Token} (h : t.wholeFrame = none) (hlen : t.bytes.length ≤ 1) :
    Grouped [t] [t.bytes] := by
  have hbytes : [t].flatMap Token.bytes = t.bytes := List.append_nil _
  have hpiece := @Grouped.passed [t] [] [] (List.forall_mem_singleton.mpr h)
    (by rw [hbytes]; exact not_isFrame_of_length hlen) .nil
  rwa [hbytes] at hpiece

/-- A token stands for the bytes the cursor passes. -/
theorem token_bytes {buf : List U8} {t : Token} {n : Nat} (h : frameStep 1 buf = some (t, n)) :
    t.bytes = buf.take n := by
  obtain ⟨hlen, -, rfl, rfl⟩ | ⟨-, -, -, rfl, rfl⟩ | ⟨-, -, rfl, -, rfl⟩ := frameStep_some h
  · obtain _ | ⟨a, rest⟩ := buf
    · exact absurd hlen (Nat.not_succ_le_zero 1)
    · rfl
  · exact List.take_take
  · rfl

theorem grouped_token {buf : List U8} {t : Token} {n : Nat} (h : frameStep 1 buf = some (t, n)) :
    Grouped [t] [t.bytes] := by
  cases t with
  | frame bytes => exact .frame (isFrame_of_frameStep h).1 .nil
  | noise b => exact .single rfl (Nat.le_refl 1)
  | oversized hdr => exact .single rfl (List.length_take_le 1 hdr)

/-- A turn puts out what the hunt passes, and then waits or passes one more
token. -/
theorem byteTurn_eq (buf : List U8) :
    byteTurn buf =
      match frameStep 1 (buf.drop (huntMagic buf).1) with
      | none => (noisePiece buf, (huntMagic buf).1, false)
      | some (t, n) => (noisePiece buf ++ [t.bytes], (huntMagic buf).1 + n, true) := by
  have hrest := huntMagic_rest buf
  generalize hbuf : buf.drop (huntMagic buf).1 = rest at hrest ⊢
  cases hfound : (huntMagic buf).2 with
  | false =>
      rw [hfound, if_neg Bool.false_ne_true] at hrest
      rw [frameStep, if_pos hrest]
      simp [byteTurn, hfound, noisePiece]
  | true =>
      rw [hfound, if_pos rfl] at hrest
      obtain ⟨hlen, hmagic⟩ := hrest
      have hann : (SafetyFrameHeader.ofBytes rest).payloadLength.toNat = announced rest := rfl
      have htake : (rest.take safetyHeaderSize).take 1 = rest.take 1 := List.take_take
      rw [frameStep, if_neg (Nat.not_lt.mpr hlen), if_neg (not_not_intro hmagic)]
      simp only [byteTurn, hfound, hbuf, hann, not_true_eq_false, if_false]
      by_cases hhdr : rest.length < safetyHeaderSize
      · rw [if_pos hhdr, if_pos hhdr]
        rfl
      rw [if_neg hhdr, if_neg hhdr]
      by_cases hlong : announced rest > safetyMaxPayload
      · rw [if_pos hlong, if_pos hlong]
        simp only [Token.bytes, htake, noisePiece]
      rw [if_neg hlong, if_neg hlong]
      by_cases htotal : rest.length < safetyHeaderSize + announced rest
      · rw [if_pos htotal, if_pos htotal]
        rfl
      · rw [if_neg htotal, if_neg htotal]
        rfl

theorem byteLoop_grouped {fuel : Nat} {buf : List U8} (h : buf.length < fuel) :
    Grouped (Scanner.tokens (frameStep 1) buf).1 (byteLoop fuel buf).1 ∧
      (byteLoop fuel buf).2 = (Scanner.tokens (frameStep 1) buf).2 := by
  induction fuel generalizing buf with
  | zero => omega
  | succ fuel ih =>
      rw [huntMagic_tokens, byteLoop, byteTurn_eq]
      cases hstep : frameStep 1 (buf.drop (huntMagic buf).1) with
      | none =>
          rw [Scanner.Incremental.tokens_wait hstep, List.append_nil]
          exact ⟨grouped_noisePiece buf, rfl⟩
      | some r =>
          obtain ⟨t, n⟩ := r
          have hprogress := incremental_host.progress hstep
          rw [List.length_drop] at hprogress
          have hshorter : (buf.drop ((huntMagic buf).1 + n)).length < fuel := by
            rw [List.length_drop]
            omega
          obtain ⟨hpieces, hrest⟩ := ih hshorter
          have htokens := (grouped_noisePiece buf).append ((grouped_token hstep).append hpieces)
          rw [← List.append_assoc (noisePiece buf)] at htokens
          rw [incremental_host.tokens_found hstep, List.drop_drop]
          exact ⟨htokens, hrest⟩

theorem ByteFramer.feed_grouped (buf data : List U8) :
    Grouped (Scanner.tokens (frameStep 1) (buf ++ data)).1 (ByteFramer.feed buf data).1 ∧
      (ByteFramer.feed buf data).2 = (Scanner.tokens (frameStep 1) (buf ++ data)).2 :=
  byteLoop_grouped (Nat.lt_succ_self _)

end SafetyCopro
