import SafetyCopro.Protocol.Framing
import SafetyCopro.Protocol.Validate

/-!
Scanning streams of frames. Bytes without a magic are passed one by one, a frame
at the cursor is taken whole, and a scan that starts in the wrong place falls
into step again. All of it holds for the hosts' skip and for the firmware's.
-/

namespace SafetyCopro

/-- The two magic bytes do not stand next to each other. -/
def NoMagic (bytes : List U8) : Prop := ¬ [magicLo, magicHi] <:+: bytes

instance (bytes : List U8) : Decidable (NoMagic bytes) :=
  inferInstanceAs (Decidable (¬ _))

/-- One frame and nothing else. -/
structure ValidFrame (bytes : List U8) : Prop where
  valid : safetyFrameValidate bytes = .ok
  length : bytes.length = safetyHeaderSize + announced bytes

instance (bytes : List U8) : Decidable (ValidFrame bytes) :=
  decidable_of_iff (safetyFrameValidate bytes = .ok ∧
      bytes.length = safetyHeaderSize + announced bytes)
    ⟨fun h => ⟨h.1, h.2⟩, fun h => ⟨h.valid, h.length⟩⟩

theorem ValidFrame.isFrame {bytes : List U8} (h : ValidFrame bytes) : IsFrame bytes :=
  have haccepted := safetyFrameValidate_ok_iff.mp h.valid
  ⟨haccepted.magic, haccepted.fits, h.length⟩

theorem IsFrame.cons {bytes : List U8} (h : IsFrame bytes) :
    ∃ rest, bytes = magicLo :: magicHi :: rest := by
  obtain ⟨hmagic, -, hlen⟩ := h
  have h16 : safetyHeaderSize = 16 := rfl
  obtain _ | ⟨a, _ | ⟨b, rest⟩⟩ := bytes
  · simp only [List.length_nil] at hlen
    omega
  · simp only [List.length_cons, List.length_nil] at hlen
    omega
  · obtain ⟨rfl, rfl⟩ := u16At_eq_magic.mp hmagic
    exact ⟨rest, rfl⟩

theorem noMagic_cons {a : U8} {bytes : List U8} (h : NoMagic (a :: bytes)) :
    ¬ [magicLo, magicHi] <+: a :: bytes ∧ NoMagic bytes := by
  rw [NoMagic, List.infix_cons_iff, not_or] at h
  exact h

theorem noMagic_of_suffix {bytes bytes' : List U8} (h : NoMagic bytes)
    (hsuffix : bytes' <:+ bytes) : NoMagic bytes' :=
  fun hmagic => h (hmagic.trans hsuffix.isInfix)

/-- A frame's first byte does not complete a magic. -/
theorem noMagic_append_magicLo {bytes : List U8} (h : NoMagic bytes) :
    NoMagic (bytes ++ [magicLo]) := by
  induction bytes with
  | nil => decide
  | cons a bytes ih =>
      obtain ⟨hfirst, hrest⟩ := noMagic_cons h
      rw [NoMagic, List.cons_append, List.infix_cons_iff, not_or]
      refine ⟨fun hmagic => ?_, ih hrest⟩
      cases bytes with
      | nil =>
          simp only [List.nil_append, List.cons_prefix_cons] at hmagic
          exact absurd hmagic.2.1 (by decide)
      | cons b bytes =>
          simp only [List.cons_append, List.cons_prefix_cons] at hmagic hfirst
          exact hfirst ⟨hmagic.1, hmagic.2.1, List.nil_prefix⟩

/-- Frames, each with the noise in front of it, and the noise behind the last. -/
def stream (segs : List (List U8 × List U8)) (tail : List U8) : List U8 :=
  segs.flatMap (fun s => s.1 ++ s.2) ++ tail

def streamTokens (segs : List (List U8 × List U8)) : List Token :=
  segs.flatMap fun s => s.1.map Token.noise ++ [.frame s.2]

/-- The magic stands at the start of the frame only. -/
structure LoneMagic (bytes : List U8) : Prop where
  frame : IsFrame bytes
  lone : NoMagic bytes.tail

/-- Frames begin with the first byte of a magic. -/
theorem flatten_eq_cons {frames : List (List U8)} (h : ∀ f ∈ frames, LoneMagic f)
    (hpos : 0 < frames.flatten.length) : ∃ rest, frames.flatten = magicLo :: rest := by
  cases frames with
  | nil => exact absurd hpos (Nat.lt_irrefl 0)
  | cons f frames =>
      obtain ⟨rest, hf⟩ := (h f List.mem_cons_self).frame.cons
      exact ⟨magicHi :: rest ++ frames.flatten, by rw [List.flatten_cons, hf]; rfl⟩

/-- A token that starts in front of a frame claims at most 270 bytes of it: a
magic cannot end in the frame's first byte, so two bytes of it stand in front. -/
theorem overreach_le {skip : Nat} (hskip : skip ≤ safetyHeaderSize) {a : U8} {g rest : List U8}
    {t : Token} {m : Nat} (hstep : frameStep skip (a :: g ++ magicLo :: rest) = some (t, m)) :
    m - (a :: g).length ≤ 270 := by
  have h16 : safetyHeaderSize = 16 := rfl
  have h256 : safetyMaxPayload = 256 := rfl
  rw [List.length_cons]
  obtain ⟨-, -, -, rfl⟩ | ⟨-, -, -, -, rfl⟩ | ⟨hmagic, hfits, rfl, -, -⟩ := frameStep_some hstep
  · omega
  · omega
  · cases g with
    | nil => exact absurd (u16At_eq_magic.mp hmagic).2 (by decide)
    | cons b g =>
        rw [List.length_cons]
        omega

section Scan
variable {skip : Nat} (h : Scanner.Incremental (frameStep skip))
include h

/-- Bytes without a magic, also with the byte behind them, are noise. -/
theorem tokens_noise {noise : List U8} {b : U8} (rest : List U8)
    (hnoise : NoMagic (noise ++ [b])) :
    Scanner.tokens (frameStep skip) (noise ++ b :: rest) =
      (noise.map Token.noise ++ (Scanner.tokens (frameStep skip) (b :: rest)).1,
        (Scanner.tokens (frameStep skip) (b :: rest)).2) := by
  induction noise with
  | nil => rfl
  | cons a noise ih =>
      rw [List.cons_append] at hnoise
      obtain ⟨hfirst, htail⟩ := noMagic_cons hnoise
      -- the byte behind `a`, in the noise or right after it
      obtain ⟨c, hc, hc'⟩ : ∃ c, (∃ more, noise ++ [b] = c :: more) ∧
          ∃ more, noise ++ b :: rest = c :: more := by
        cases noise with
        | nil => exact ⟨b, ⟨[], rfl⟩, rest, rfl⟩
        | cons c noise => exact ⟨c, ⟨noise ++ [b], rfl⟩, noise ++ b :: rest, rfl⟩
      obtain ⟨more, hmore⟩ := hc
      obtain ⟨more', hmore'⟩ := hc'
      have hnot : ¬ (a = magicLo ∧ c = magicHi) := by
        rintro ⟨rfl, rfl⟩
        rw [hmore] at hfirst
        exact hfirst ⟨more, rfl⟩
      have hstep := @frameStep_noise skip a c more' hnot
      rw [← hmore'] at hstep
      rw [List.cons_append, h.tokens_found hstep, List.drop_one, List.tail_cons, ih htail]
      rfl

/-- At the end of the stream the last byte may be kept. -/
theorem tokens_noise_end {noise : List U8} (hnoise : NoMagic noise) :
    ∃ n, Scanner.tokens (frameStep skip) noise =
      ((noise.take n).map Token.noise, noise.drop n) := by
  obtain rfl | ⟨init, b, rfl⟩ := noise.eq_nil_or_concat'
  · exact ⟨0, Scanner.Incremental.tokens_wait (frameStep_nil skip)⟩
  · refine ⟨init.length, ?_⟩
    have hlast : frameStep skip [b] = none := frameStep_short skip Nat.one_lt_two
    rw [tokens_noise h [] hnoise, Scanner.Incremental.tokens_wait hlast, List.take_left,
      List.drop_left, List.append_nil]

theorem tokens_frame {bytes : List U8} (hframe : IsFrame bytes) (rest : List U8) :
    Scanner.tokens (frameStep skip) (bytes ++ rest) =
      (.frame bytes :: (Scanner.tokens (frameStep skip) rest).1,
        (Scanner.tokens (frameStep skip) rest).2) := by
  rw [h.tokens_found (frameStep_frame skip hframe rest), List.drop_left]

theorem tokens_noise_frame {noise bytes : List U8} (hnoise : NoMagic noise)
    (hframe : IsFrame bytes) (rest : List U8) :
    Scanner.tokens (frameStep skip) (noise ++ (bytes ++ rest)) =
      (noise.map Token.noise ++ .frame bytes :: (Scanner.tokens (frameStep skip) rest).1,
        (Scanner.tokens (frameStep skip) rest).2) := by
  have htokens := tokens_frame h hframe rest
  obtain ⟨more, rfl⟩ := hframe.cons
  rw [List.cons_append] at htokens ⊢
  rw [tokens_noise h _ (noMagic_append_magicLo hnoise), htokens]

theorem tokens_frames {frames : List (List U8)} (hframes : ∀ f ∈ frames, IsFrame f) :
    Scanner.tokens (frameStep skip) frames.flatten = (frames.map Token.frame, []) := by
  induction frames with
  | nil => exact Scanner.Incremental.tokens_wait (frameStep_nil skip)
  | cons f frames ih =>
      obtain ⟨hf, hrest⟩ := List.forall_mem_cons.mp hframes
      rw [List.flatten_cons, tokens_frame h hf, ih hrest]
      rfl

/-- Bytes are whole frames in one way only. -/
theorem flatten_injective {frames frames' : List (List U8)} (hframes : ∀ f ∈ frames, IsFrame f)
    (hframes' : ∀ f ∈ frames', IsFrame f) (heq : frames.flatten = frames'.flatten) :
    frames = frames' := by
  have htokens := tokens_frames h hframes
  rw [heq, tokens_frames h hframes'] at htokens
  have hinj : Function.Injective Token.frame := fun _ _ => Token.frame.inj
  exact hinj.list_map (Prod.mk.inj htokens).1.symm

theorem tokens_stream {segs : List (List U8 × List U8)} {tail : List U8}
    (hsegs : ∀ s ∈ segs, NoMagic s.1 ∧ IsFrame s.2) (htail : NoMagic tail) :
    ∃ n, Scanner.tokens (frameStep skip) (stream segs tail) =
      (streamTokens segs ++ (tail.take n).map Token.noise, tail.drop n) := by
  induction segs with
  | nil => exact tokens_noise_end h htail
  | cons s segs ih =>
      obtain ⟨⟨hnoise, hframe⟩, hrest⟩ := List.forall_mem_cons.mp hsegs
      obtain ⟨n, htokens⟩ := ih hrest
      have hsplit : stream (s :: segs) tail = s.1 ++ (s.2 ++ stream segs tail) := by
        simp only [stream, List.flatMap_cons, List.append_assoc]
      refine ⟨n, ?_⟩
      rw [hsplit, tokens_noise_frame h hnoise hframe, htokens]
      simp only [streamTokens, List.flatMap_cons, List.append_assoc, List.cons_append,
        List.nil_append]

/-! ### Falling into step -/

/-- From any place in front of them, the frames are found. -/
theorem tokens_drop_frames {pre post : List (List U8)} (hpre : ∀ f ∈ pre, LoneMagic f)
    (hpost : ∀ f ∈ post, LoneMagic f) {k : Nat} (hk : k ≤ pre.flatten.length) :
    post.map Token.frame <:+
      (Scanner.tokens (frameStep skip) ((pre ++ post).flatten.drop k)).1 := by
  induction pre generalizing k with
  | nil =>
      obtain rfl := Nat.le_zero.mp hk
      have hall := tokens_frames h fun f hf => (hpost f hf).frame
      exact (congrArg Prod.fst hall).symm ▸ List.suffix_rfl
  | cons f pre ih =>
      obtain ⟨hf, hpre⟩ := List.forall_mem_cons.mp hpre
      have hzero := ih hpre (Nat.zero_le _)
      rw [List.drop_zero] at hzero
      rw [List.flatten_cons, List.length_append] at hk
      rw [List.cons_append, List.flatten_cons]
      obtain rfl | hpos := Nat.eq_zero_or_pos k
      · rw [List.drop_zero, tokens_frame h hf.frame]
        exact hzero.trans (List.suffix_cons _ _)
      by_cases hin : k < f.length
      · -- inside `f` there is no magic before the next frame
        have hnoise : NoMagic (f.drop k) := by
          refine noMagic_of_suffix hf.lone ?_
          rw [← List.drop_one, ← Nat.sub_add_cancel hpos, Nat.add_comm, ← List.drop_drop]
          exact List.drop_suffix _ _
        rw [List.drop_append_of_le_length (Nat.le_of_lt hin)]
        cases hrest : pre ++ post with
        | nil =>
            obtain ⟨-, rfl⟩ := List.append_eq_nil_iff.mp hrest
            exact List.nil_suffix
        | cons f' rest =>
            have hf' : LoneMagic f' := by
              have hmem : f' ∈ pre ++ post := by rw [hrest]; exact List.mem_cons_self
              obtain hmem | hmem := List.mem_append.mp hmem
              · exact hpre f' hmem
              · exact hpost f' hmem
            rw [hrest, List.flatten_cons, tokens_frame h hf'.frame] at hzero
            rw [List.flatten_cons, tokens_noise_frame h hnoise hf'.frame]
            exact hzero.trans (List.suffix_append _ _)
      · have hlen := Nat.not_lt.mp hin
        rw [List.drop_append, List.drop_of_length_le hlen, List.nil_append]
        exact ih hpre (by omega)

/-- Whatever stands in front, frames that start 270 bytes behind it are found:
a false header in front claims at most that much of the frames. -/
theorem tokens_resync (hskip : skip ≤ safetyHeaderSize) (g : List U8) {pre post : List (List U8)}
    (hpre : ∀ f ∈ pre, LoneMagic f) (hpost : ∀ f ∈ post, LoneMagic f)
    (hlen : 270 ≤ pre.flatten.length) :
    post.map Token.frame <:+
      (Scanner.tokens (frameStep skip) (g ++ (pre ++ post).flatten)).1 := by
  have hflatten : (pre ++ post).flatten = pre.flatten ++ post.flatten := List.flatten_append
  obtain ⟨rest, hrest⟩ := flatten_eq_cons hpre (by omega)
  induction hn : g.length using Nat.strongRecOn generalizing g with
  | ind n ih =>
      obtain _ | ⟨a, g⟩ := g
      · exact tokens_drop_frames h hpre hpost (Nat.zero_le _)
      cases hstep : frameStep skip (a :: g ++ (pre ++ post).flatten) with
      | none =>
          -- too little is left for a frame to stand behind
          have hshort := length_of_frameStep_none hstep
          have h16 : safetyHeaderSize = 16 := rfl
          have h272 : safetyMaxFrameSize = 272 := rfl
          cases post with
          | nil => exact List.nil_suffix
          | cons f post =>
              have hf := (hpost f List.mem_cons_self).frame.2.2
              rw [List.length_append, hflatten, List.length_append, List.flatten_cons,
                List.length_append, List.length_cons] at hshort
              omega
      | some r =>
          obtain ⟨t, m⟩ := r
          have hprogress := h.progress hstep
          rw [h.tokens_found hstep]
          refine List.IsSuffix.trans ?_ (List.suffix_cons _ _)
          by_cases hin : m ≤ (a :: g).length
          · rw [List.drop_append_of_le_length hin]
            refine ih ((a :: g).drop m).length ?_ _ rfl
            rw [List.length_drop]
            omega
          · have hout := Nat.le_of_lt (Nat.lt_of_not_le hin)
            have hdrop : (a :: g ++ (pre ++ post).flatten).drop m =
                (pre ++ post).flatten.drop (m - (a :: g).length) := by
              rw [List.drop_append, List.drop_of_length_le hout, List.nil_append]
            rw [hflatten, hrest] at hstep
            rw [hdrop]
            exact tokens_drop_frames h hpre hpost (Nat.le_trans (overreach_le hskip hstep) hlen)

end Scan

end SafetyCopro
