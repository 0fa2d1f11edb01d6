import SafetyCopro.Lib.Numbering
import SafetyCopro.System.Injection

/-!
How the numbers of the frames depend on where the reads end. The framer puts
what it finds between frames into pieces that end with a read, and the injector
counts pieces. So a read that ends between two bytes of noise moves the number
of every frame behind them by one.
-/

namespace SafetyCopro

open Numbering (Placed)
open Scanner (tokens)

def Token.isNoise : Token → Bool
  | .noise _ => true
  | _ => false

/-- The token is noise behind noise; in one read both go out in one piece. -/
def continues (ts : List Token) : Nat → Bool
  | 0 => false
  | i + 1 => ts[i]?.any Token.isNoise && ts[i + 1]?.any Token.isNoise

theorem continues_append_left {ts : List Token} (more : List Token) {i : Nat}
    (h : i < ts.length) : continues (ts ++ more) i = continues ts i := by
  cases i with
  | zero => rfl
  | succ i =>
      rw [continues, continues, List.getElem?_append_left (by omega), List.getElem?_append_left h]

theorem continues_append_right (before ts : List Token) (i : Nat) :
    continues (before ++ ts) (before.length + (i + 1)) = continues ts (i + 1) := by
  have hindex : before.length + (i + 1) = before.length + i + 1 := rfl
  rw [hindex, continues, continues, List.getElem?_append_right (by omega),
    List.getElem?_append_right (by omega), Nat.add_sub_cancel_left, Nat.add_assoc,
    Nat.add_sub_cancel_left]

/-! ### The pieces of one read -/

/-- A piece begins at every token of the read that does not continue the one
before it. -/
def Marks (p : Nat → Prop) (i : Nat) (ts : List Token) : Prop :=
  ∀ j, j < ts.length → (p (i + j) ↔ continues ts j = false)

/-- Behind a token that is no noise, the rest of the read is marked by itself. -/
theorem Marks.behind {p : Nat → Prop} {i : Nat} {before ts : List Token} {t : Token}
    (ht : t.isNoise = false) (h : Marks p i (before ++ t :: ts)) :
    p (i + before.length) ∧ Marks p (i + before.length + 1) ts := by
  have hlen : (before ++ t :: ts).length = before.length + (ts.length + 1) := by
    rw [List.length_append, List.length_cons]
  have hat : (before ++ t :: ts)[before.length]? = some t := by
    rw [List.getElem?_append_right (Nat.le_refl _), Nat.sub_self, List.getElem?_cons_zero]
  constructor
  · refine (h before.length (by omega)).mpr ?_
    cases hb : before.length with
    | zero => rfl
    | succ n =>
        rw [hb] at hat
        rw [continues, hat, Option.any_some, ht, Bool.and_false]
  · intro j hj
    have hmark := h (before.length + (j + 1)) (by omega)
    rw [← Nat.add_assoc, ← Nat.add_assoc, Nat.add_right_comm (i + before.length)] at hmark
    rw [hmark]
    cases j with
    | zero =>
        have hsucc : continues (before ++ t :: ts) (before.length + (0 + 1)) = false := by
          rw [Nat.zero_add, continues, hat, Option.any_some, ht, Bool.false_and]
        exact iff_of_true hsucc rfl
    | succ j =>
        rw [continues_append_right, ← continues_append_right [t]]
        rw [List.length_singleton, Nat.add_comm 1]
        rfl

section Placed

variable {p : Nat → Prop} [DecidablePred p] {i : Nat}

theorem isNoise_of_hunt {buf : List U8} {t : Token} {n : Nat}
    (h : frameStep 1 (buf.drop (huntMagic buf).1) = some (t, n)) : t.isNoise = false := by
  have hrest := huntMagic_rest buf
  obtain ⟨hlen, hmagic, -, -⟩ | ⟨-, -, -, rfl, -⟩ | ⟨-, -, -, -, rfl⟩ := frameStep_some h
  · split at hrest
    · exact absurd hrest.2 hmagic
    · omega
  · rfl
  · rfl

theorem continues_noise {noise : List U8} (more : List Token) {j : Nat}
    (h : j + 1 < noise.length) : continues (noise.map Token.noise ++ more) (j + 1) = true := by
  rw [continues_append_left more (by rwa [List.length_map]), continues, List.getElem?_map,
    List.getElem?_map, List.getElem?_eq_getElem h, List.getElem?_eq_getElem (by omega)]
  rfl

theorem count_noise {noise : List U8} {more : List Token} (hne : noise ≠ [])
    (h : Marks p i (noise.map Token.noise ++ more)) :
    Nat.count p (i + (noise.map Token.noise).length) = Nat.count p i + 1 := by
  obtain ⟨n, hn⟩ := Nat.exists_eq_add_one.mpr (List.length_pos_iff.mpr hne)
  have hlen : (noise.map Token.noise ++ more).length = n + 1 + more.length := by
    rw [List.length_append, List.length_map, hn]
  rw [List.length_map, hn]
  refine Numbering.count_run ((h 0 (by omega)).mpr rfl) fun j hj hp => ?_
  have hfalse := (h (j + 1) (by omega)).mp hp
  rw [continues_noise more (by omega)] at hfalse
  cases hfalse

/-- The noise in front of a token is one piece. -/
theorem placed_noisePiece {buf : List U8} {more : List Token}
    (h : Marks p i ((buf.take (huntMagic buf).1).map Token.noise ++ more)) :
    Placed Token.wholeFrame IsFrame p i ((buf.take (huntMagic buf).1).map Token.noise)
      (noisePiece buf) := by
  unfold noisePiece
  split
  · rename_i hpos
    exact .group (wholeFrame_noise _) (not_isFrame_noise hpos)
      (count_noise (take_huntMagic_ne_nil hpos) h)
  · rename_i hpos
    rw [Nat.eq_zero_of_not_pos hpos]
    exact .nil

theorem placed_token {buf : List U8} {t : Token} {n : Nat} (h : frameStep 1 buf = some (t, n))
    (hi : p i) : Placed Token.wholeFrame IsFrame p i [t] [t.bytes] := by
  have hcount : Nat.count p (i + [t].length) = Nat.count p i + 1 := by
    rw [List.length_singleton, Nat.count_succ, if_pos hi]
  have hpassed : t.wholeFrame = none → t.bytes.length ≤ 1 →
      Placed Token.wholeFrame IsFrame p i [t] [t.bytes] :=
    fun hnone hlen => .group (List.forall_mem_singleton.mpr hnone) (not_isFrame_of_length hlen)
      hcount
  cases t with
  | frame bytes => exact .single rfl (isFrame_of_frameStep h).1 hi
  | noise b => exact hpassed rfl (Nat.le_refl 1)
  | oversized hdr => exact hpassed rfl (List.length_take_le 1 hdr)

/-- All that one call of the framer puts out. -/
theorem byteLoop_placed {fuel : Nat} {buf : List U8} (hfuel : buf.length < fuel)
    (h : Marks p i (tokens (frameStep 1) buf).1) :
    Placed Token.wholeFrame IsFrame p i (tokens (frameStep 1) buf).1 (byteLoop fuel buf).1 := by
  induction fuel generalizing buf i with
  | zero => omega
  | succ fuel ih =>
      rw [huntMagic_tokens] at h ⊢
      rw [byteLoop, byteTurn_eq]
      cases hstep : frameStep 1 (buf.drop (huntMagic buf).1) with
      | none =>
          rw [Scanner.Incremental.tokens_wait hstep] at h ⊢
          rw [List.append_nil]
          exact placed_noisePiece h
      | some r =>
          obtain ⟨t, n⟩ := r
          have hprogress := incremental_host.progress hstep
          rw [List.length_drop] at hprogress
          have hshorter : (buf.drop ((huntMagic buf).1 + n)).length < fuel := by
            rw [List.length_drop]
            omega
          rw [incremental_host.tokens_found hstep, List.drop_drop] at h ⊢
          obtain ⟨hbegins, hmarks⟩ := h.behind (isNoise_of_hunt hstep)
          have hrest := (placed_token hstep hbegins).append (ih hshorter hmarks)
          have hall := (placed_noisePiece h).append hrest
          rwa [← List.append_assoc (noisePiece buf)] at hall

end Placed

/-! ### Runs -/

/-- How many tokens the framer has passed after so many reads. -/
def passedAfter (chunks : List (List U8)) (n : Nat) : Nat :=
  (tokens (frameStep 1) (chunks.take n).flatten).1.length

/-- A piece begins at the token: it does not continue the one before, or a read
ends between them. -/
def Begins (chunks : List (List U8)) (i : Nat) : Prop :=
  continues (tokens (frameStep 1) chunks.flatten).1 i = false ∨
    i ∈ (List.range (chunks.length + 1)).map (passedAfter chunks)

instance (chunks : List (List U8)) : DecidablePred (Begins chunks) :=
  fun _ => inferInstanceAs (Decidable (_ ∨ _))

theorem prefix_flatten_take (chunks : List (List U8)) (n : Nat) :
    (chunks.take n).flatten <+: chunks.flatten := by
  nth_rewrite 2 [← List.take_append_drop n chunks]
  rw [List.flatten_append]
  exact List.prefix_append _ _

theorem prefix_tokens {x stream : List U8} (h : x <+: stream) :
    (tokens (frameStep 1) x).1 <+: (tokens (frameStep 1) stream).1 := by
  obtain ⟨y, rfl⟩ := h
  rw [incremental_host.tokens_append]
  exact List.prefix_append _ _

theorem passedAfter_mono (chunks : List (List U8)) {n m : Nat} (h : n ≤ m) :
    passedAfter chunks n ≤ passedAfter chunks m := by
  have hfront := prefix_flatten_take (chunks.take m) n
  rw [List.take_take, Nat.min_eq_left h] at hfront
  exact (prefix_tokens hfront).length_le

/-- Each read is marked where pieces begin. -/
theorem marks_read {chunks : List (List U8)} (pre : List (List U8)) {c : List U8}
    {post : List (List U8)} (h : chunks = pre ++ c :: post) :
    Marks (Begins chunks) (tokens (frameStep 1) pre.flatten).1.length
      (tokens (frameStep 1) ((tokens (frameStep 1) pre.flatten).2 ++ c)).1 := by
  have hbefore : passedAfter chunks pre.length = (tokens (frameStep 1) pre.flatten).1.length := by
    rw [passedAfter, h, List.take_left]
  have hbehind : passedAfter chunks (pre.length + 1) =
      (tokens (frameStep 1) pre.flatten).1.length +
        (tokens (frameStep 1) ((tokens (frameStep 1) pre.flatten).2 ++ c)).1.length := by
    rw [passedAfter, h, List.take_length_add_append, List.take_one, List.head?_cons,
      Option.toList_some, List.flatten_append, List.flatten_singleton,
      incremental_host.tokens_append, List.length_append]
  have hall : (tokens (frameStep 1) chunks.flatten).1 =
      (tokens (frameStep 1) pre.flatten).1 ++
        ((tokens (frameStep 1) ((tokens (frameStep 1) pre.flatten).2 ++ c)).1 ++
          (tokens (frameStep 1)
            ((tokens (frameStep 1) ((tokens (frameStep 1) pre.flatten).2 ++ c)).2 ++
              post.flatten)).1) := by
    rw [h, List.flatten_append, List.flatten_cons, incremental_host.tokens_append,
      ← List.append_assoc, incremental_host.tokens_append (_ ++ c)]
  generalize (tokens (frameStep 1) pre.flatten).1 = before at *
  generalize (tokens (frameStep 1) ((tokens (frameStep 1) pre.flatten).2 ++ c)).1 = ts at *
  intro j hj
  rw [Begins, hall]
  cases j with
  | zero =>
      refine iff_of_true (.inr (List.mem_map.mpr ⟨pre.length, ?_, hbefore⟩)) rfl
      rw [List.mem_range, h, List.length_append]
      omega
  | succ j =>
      rw [continues_append_right, continues_append_left _ hj]
      refine or_iff_left fun hend => ?_
      -- a read before this one ends too early, one behind it too late
      obtain ⟨n, -, hn⟩ := List.mem_map.mp hend
      obtain hlate | hearly := Nat.lt_or_ge pre.length n
      · have hmono : passedAfter chunks (pre.length + 1) ≤ passedAfter chunks n :=
          passedAfter_mono chunks hlate
        omega
      · have hmono := passedAfter_mono chunks hearly
        omega

/-- The reads of one side of the bridge. -/
def readsOf (dir : Direction) (chunks : List (List U8)) : List BridgeInput :=
  chunks.map fun data => ⟨dir, data, []⟩

/-- One read, behind those before it. -/
theorem step_placed {dir : Direction} {chunks pre : List (List U8)} {c : List U8}
    {post : List (List U8)} (h : chunks = pre ++ c :: post) {b : Bridge}
    (hb : b.framer dir = (tokens (frameStep 1) pre.flatten).2) :
    Placed Token.wholeFrame IsFrame (Begins chunks) (tokens (frameStep 1) pre.flatten).1.length
        (tokens (frameStep 1) ((tokens (frameStep 1) pre.flatten).2 ++ c)).1
        ((b.step ⟨dir, c, []⟩).2.map Passed.piece) ∧
      (b.step ⟨dir, c, []⟩).1.framer dir = (tokens (frameStep 1) (pre.flatten ++ c)).2 := by
  have hrest := congrArg Prod.snd (incremental_host.tokens_append pre.flatten c)
  have hmarks := marks_read pre h
  rw [Bridge.step]
  split
  · rename_i hdata
    obtain rfl : c = [] := hdata
    rw [List.append_nil, List.append_nil,
      Scanner.Incremental.tokens_wait (incremental_host.step_rest _)]
    exact ⟨.nil, hb⟩
  · dsimp only
    rw [forwardPieces_pieces, Function.update_self, (ByteFramer.feed_grouped _ _).2, hb, hrest]
    exact ⟨byteLoop_placed (Nat.lt_succ_self _) hmarks, rfl⟩

theorem run_placed (dir : Direction) {chunks : List (List U8)} (pre : List (List U8))
    {post : List (List U8)} (h : chunks = pre ++ post) {b : Bridge}
    (hb : b.framer dir = (tokens (frameStep 1) pre.flatten).2) :
    Placed Token.wholeFrame IsFrame (Begins chunks) (tokens (frameStep 1) pre.flatten).1.length
      (tokens (frameStep 1) ((tokens (frameStep 1) pre.flatten).2 ++ post.flatten)).1
      ((Machine.outputs Bridge.step b (readsOf dir post)).map Passed.piece) := by
  induction post generalizing pre b with
  | nil =>
      rw [List.flatten_nil, List.append_nil,
        Scanner.Incremental.tokens_wait (incremental_host.step_rest _)]
      exact .nil
  | cons c post ih =>
      have hnext : chunks = pre ++ [c] ++ post := by
        rw [h, List.append_assoc, List.singleton_append]
      have hflat : (pre ++ [c]).flatten = pre.flatten ++ c := by
        rw [List.flatten_append, List.flatten_singleton]
      have hrun : Machine.outputs Bridge.step b (readsOf dir (c :: post)) =
          (b.step ⟨dir, c, []⟩).2 ++
            Machine.outputs Bridge.step (b.step ⟨dir, c, []⟩).1 (readsOf dir post) := rfl
      obtain ⟨hread, hframer⟩ := step_placed h hb
      rw [← hflat] at hframer
      have hrest := ih (pre ++ [c]) hnext hframer
      rw [hflat, incremental_host.tokens_append pre.flatten c, List.length_append] at hrest
      rw [hrun, List.map_append, List.flatten_cons, ← List.append_assoc,
        incremental_host.tokens_append (_ ++ c)]
      exact hread.append hrest

/-! ### What becomes of the frames -/

open FaultInjector (Drops Corrupts)

/-- The frames of a stream that is read like this: whether each is forwarded,
and what is sent of it. -/
def fates (cfg : InjectorConfig) (dir : Direction) (chunks : List (List U8)) :
    List (List U8 × Bool × List U8) :=
  ((Machine.outputs Bridge.step { injector := { cfg } } (readsOf dir chunks)).filter
    fun p => IsFrame p.piece).map fun p => (p.piece, p.processed.forwarded, p.sent)

/-- What becomes of the frame with this number. -/
def fate (cfg : InjectorConfig) (f : List U8) (number : Nat) : List U8 × Bool × List U8 :=
  if Drops cfg number f then (f, false, [])
  else (f, true, if Corrupts cfg number then f.modify 12 (· ^^^ 0xFF#8) else f)

theorem fate_of_by {cfg : InjectorConfig} {p : Passed} (h : p.By cfg) (hframe : IsFrame p.piece) :
    (p.piece, p.processed.forwarded, p.sent) = fate cfg p.piece p.number := by
  obtain ⟨inj, rfl, hnumber, hprocessed⟩ := h
  obtain ⟨hforwarded, hkept⟩ := @FaultInjector.process_frame inj p.piece p.dir hframe.length_le.1
  rw [← hnumber, ← hprocessed] at hforwarded hkept
  rw [Passed.sent, fate, hforwarded]
  by_cases hdrop : Drops inj.cfg p.number p.piece
  · rw [if_pos hdrop, decide_eq_false (not_not_intro hdrop), if_neg Bool.false_ne_true]
  · rw [if_neg hdrop, decide_eq_true hdrop, if_pos rfl, hkept hdrop]

/-- The number of the frame that is the `k`-th token of the stream. -/
def pieceNumber (chunks : List (List U8)) (k : Nat) : Nat := Nat.count (Begins chunks) (k + 1)

theorem fates_eq (cfg : InjectorConfig) (dir : Direction) (chunks : List (List U8)) :
    fates cfg dir chunks =
      (tokens (frameStep 1) chunks.flatten).1.zipIdx.filterMap fun tk =>
        tk.1.wholeFrame.map fun f => fate cfg f (pieceNumber chunks tk.2) := by
  have hrun := bridgeInv_run cfg (readsOf dir chunks)
  have hplaced := @run_placed dir chunks [] chunks rfl { injector := { cfg } } rfl
  rw [fates]
  generalize Machine.outputs Bridge.step { injector := { cfg } } (readsOf dir chunks) = events
    at hrun hplaced ⊢
  have hpairs : events.map (fun p => (p.piece, p.number)) =
      (events.map Passed.piece).zipIdx 1 := by
    rw [List.zipIdx_eq_zip_range', List.length_map, ← hrun.numbers, List.zip_map']
  have hframes : (events.filter fun p => IsFrame p.piece).map (fun p => (p.piece, p.number)) =
      Numbering.numbers Token.wholeFrame (Begins chunks) 0
        (tokens (frameStep 1) chunks.flatten).1 := by
    have hfilter := List.filter_map (f := fun p : Passed => (p.piece, p.number))
      (p := fun pn => IsFrame pn.1) (l := events)
    rw [hpairs] at hfilter
    exact hfilter.symm.trans hplaced.picked
  have hfates : (events.filter fun p => IsFrame p.piece).map
      (fun p => (p.piece, p.processed.forwarded, p.sent)) =
      ((events.filter fun p => IsFrame p.piece).map (fun p => (p.piece, p.number))).map
        fun fn => fate cfg fn.1 fn.2 := by
    rw [List.map_map]
    refine List.map_congr_left fun p hp => ?_
    obtain ⟨hmem, hframe⟩ := List.mem_filter.mp hp
    exact fate_of_by (hrun.made p hmem) (of_decide_eq_true hframe)
  rw [hfates, hframes, Numbering.numbers, List.map_filterMap]
  refine List.filterMap_congr fun tk _ => ?_
  rw [Option.map_map]
  rfl

/-- The frame fares the same under both numbers. -/
def SameFate (cfg : InjectorConfig) (f : List U8) (n m : Nat) : Prop :=
  (Drops cfg n f ↔ Drops cfg m f) ∧ (¬ Drops cfg n f → (Corrupts cfg n ↔ Corrupts cfg m))

theorem fate_eq_iff {f : List U8} (h : IsFrame f) (cfg : InjectorConfig) (n m : Nat) :
    fate cfg f n = fate cfg f m ↔ SameFate cfg f n m := by
  have hne := corrupt_ne h
  rw [fate, fate, SameFate]
  by_cases hn : Drops cfg n f
  · by_cases hm : Drops cfg m f
    · simp [hn, hm]
    · simp [hn, hm]
  · by_cases hm : Drops cfg m f
    · simp [hn, hm]
    · by_cases hcn : Corrupts cfg n
      · by_cases hcm : Corrupts cfg m <;> simp [hn, hm, hcn, hcm, hne]
      · by_cases hcm : Corrupts cfg m <;> simp [hn, hm, hcn, hcm, hne.symm]

theorem isFrame_of_token {stream f : List U8} {k : Nat}
    (h : (tokens (frameStep 1) stream).1[k]? = some (.frame f)) : IsFrame f := by
  have hall := incremental_host.forall_mem_tokens
    (P := fun t => ∀ f, t = .frame f → IsFrame f)
    (fun buf t n hstep f ht => (isFrame_of_frameStep (ht ▸ hstep)).1) stream
  exact hall _ (List.mem_of_getElem? h) f rfl

/-- Two ways of reading one stream: its frames fare the same exactly when each
fares the same under the two numbers it gets. -/
theorem fates_eq_iff (cfg : InjectorConfig) (dir : Direction) {chunks chunks' : List (List U8)}
    (h : chunks.flatten = chunks'.flatten) :
    fates cfg dir chunks = fates cfg dir chunks' ↔
      ∀ k f, (tokens (frameStep 1) chunks.flatten).1[k]? = some (.frame f) →
        SameFate cfg f (pieceNumber chunks k) (pieceNumber chunks' k) := by
  rw [fates_eq, fates_eq, ← h,
    Numbering.filterMap_eq_iff fun tk => by rw [Option.isSome_map, Option.isSome_map]]
  constructor
  · intro hall k f hk
    have hf := hall (.frame f, k) (List.mem_zipIdx_iff_getElem?.mpr hk)
    exact (fate_eq_iff (isFrame_of_token hk) cfg _ _).mp (Option.some.inj hf)
  · rintro hall ⟨t, k⟩ htk
    have hk := List.mem_zipIdx_iff_getElem?.mp htk
    cases t with
    | frame f =>
        exact congrArg some ((fate_eq_iff (isFrame_of_token hk) cfg _ _).mpr (hall k f hk))
    | noise b => rfl
    | oversized hdr => rfl

/-! ### The streams whose frames are safe -/

/-- A read can end between two bytes of noise, and a frame comes behind them. -/
def Severable (stream : List U8) : Prop :=
  ∃ x pre a b post f, x <+: stream ∧
    (tokens (frameStep 1) x).1 = pre ++ [.noise a] ∧
    (tokens (frameStep 1) stream).1 = pre ++ .noise a :: .noise b :: post ∧
    .frame f ∈ post

/-- The stream as it can come in: `forward` reads up to 1024 bytes at a time. -/
def IsReading (stream : List U8) (chunks : List (List U8)) : Prop :=
  chunks.flatten = stream ∧ ∀ c ∈ chunks, 0 < c.length ∧ c.length ≤ 1024

theorem continues_succ {ts : List Token} {j : Nat} (h : continues ts (j + 1) = true) :
    ∃ pre a b post, ts = pre ++ .noise a :: .noise b :: post ∧ pre.length = j := by
  rw [continues, Bool.and_eq_true] at h
  have hnoise : ∀ i, ts[i]?.any Token.isNoise = true →
      ∃ a, i < ts.length ∧ ts.drop i = Token.noise a :: ts.drop (i + 1) := by
    intro i hi
    obtain ⟨t, ht, hisNoise⟩ := (Option.any_eq_true _ _).mp hi
    obtain ⟨hlt, rfl⟩ := List.getElem?_eq_some_iff.mp ht
    rw [List.drop_eq_getElem_cons hlt]
    cases hget : ts[i] with
    | noise a => exact ⟨a, hlt, rfl⟩
    | oversized hdr => rw [hget] at hisNoise; cases hisNoise
    | frame f => rw [hget] at hisNoise; cases hisNoise
  obtain ⟨a, hlt, ha⟩ := hnoise j h.1
  obtain ⟨b, -, hb⟩ := hnoise (j + 1) h.2
  refine ⟨ts.take j, a, b, ts.drop (j + 1 + 1), ?_, List.length_take_of_le (Nat.le_of_lt hlt)⟩
  rw [← hb, ← ha, List.take_append_drop]

/-- What is passed in front of two bytes of noise, by how much it is. -/
theorem tokens_of_length {stream x : List U8} {pre post : List Token} {a b : U8}
    (hxs : x <+: stream)
    (hall : (tokens (frameStep 1) stream).1 = pre ++ .noise a :: .noise b :: post)
    (hx : (tokens (frameStep 1) x).1.length = pre.length + 1) :
    (tokens (frameStep 1) x).1 = pre ++ [.noise a] := by
  have hpre : pre ++ [.noise a] <+: (tokens (frameStep 1) stream).1 :=
    ⟨.noise b :: post, by rw [hall, List.append_assoc, List.singleton_append]⟩
  have hlen : (tokens (frameStep 1) x).1.length = (pre ++ [Token.noise a]).length := by
    rw [hx, List.length_append, List.length_singleton]
  have hfront := List.prefix_of_prefix_length_le (prefix_tokens hxs) hpre (Nat.le_of_eq hlen)
  exact hfront.eq_of_length hlen

/-- A read that ends where noise goes on makes the stream severable, if a frame
comes behind. -/
theorem severable_of_end {chunks : List (List U8)} {i k n : Nat} {f : List U8}
    (hk : (tokens (frameStep 1) chunks.flatten).1[k]? = some (.frame f)) (hik : i ≤ k)
    (hcontinues : continues (tokens (frameStep 1) chunks.flatten).1 i = true)
    (hend : passedAfter chunks n = i) : Severable chunks.flatten := by
  cases i with
  | zero => cases hcontinues
  | succ j =>
      have hfront := prefix_flatten_take chunks n
      obtain ⟨pre, a, b, post, hts, hlen⟩ := continues_succ hcontinues
      have hx := tokens_of_length hfront hts (by rw [hlen]; exact hend)
      refine ⟨_, pre, a, b, post, f, hfront, hx, hts, ?_⟩
      -- the frame is neither of the two bytes
      obtain ⟨m, rfl⟩ := Nat.exists_eq_add_of_le hik
      rw [hts, List.getElem?_append_right (by omega)] at hk
      have hindex : j + 1 + m - pre.length = m + 1 := by omega
      rw [hindex, List.getElem?_cons_succ] at hk
      cases m with
      | zero => cases hk
      | succ m =>
          rw [List.getElem?_cons_succ] at hk
          exact List.mem_of_getElem? hk

/-- Unless the stream is severable, the number of a frame depends on the stream
alone. -/
theorem pieceNumber_eq {chunks : List (List U8)} {k : Nat} {f : List U8}
    (h : ¬ Severable chunks.flatten)
    (hk : (tokens (frameStep 1) chunks.flatten).1[k]? = some (.frame f)) :
    pieceNumber chunks k =
      Nat.count (fun i => continues (tokens (frameStep 1) chunks.flatten).1 i = false) (k + 1) := by
  refine Numbering.count_congr fun i hi => or_iff_left_of_imp fun hend => ?_
  obtain ⟨n, -, hn⟩ := List.mem_map.mp hend
  by_contra hcontinues
  exact h (severable_of_end hk (Nat.le_of_lt_succ hi) (Bool.not_eq_false _ ▸ hcontinues) hn)

/-- Behind a byte of noise something is left to look at. -/
theorem rest_ne_nil {x : List U8} {pre : List Token} {a : U8}
    (h : (tokens (frameStep 1) x).1 = pre ++ [.noise a]) : (tokens (frameStep 1) x).2 ≠ [] := by
  induction x using incremental_host.induction generalizing pre with
  | wait buf hstep =>
      rw [Scanner.Incremental.tokens_wait hstep] at h
      exact absurd h (by simp)
  | found buf t n hstep ih =>
      rw [incremental_host.tokens_found hstep] at h ⊢
      have hall := incremental_host.flatMap_tokens token_bytes (buf.drop n)
      cases pre with
      | nil =>
          obtain ⟨rfl, hnone⟩ := List.cons.inj h
          rw [hnone, List.flatMap_nil, List.nil_append] at hall
          obtain ⟨hlen, -, -, rfl⟩ | ⟨-, -, -, ht, -⟩ | ⟨-, -, -, -, ht⟩ := frameStep_some hstep
          · rw [hall]
            intro hnil
            have hshort := List.drop_eq_nil_iff.mp hnil
            omega
          · cases ht
          · cases ht
      | cons t' pre => exact ih (List.cons.inj h).2

/-- Where a read ends between two bytes of noise: the first is passed, the
second is kept. -/
theorem length_of_severed {x y : List U8} {pre post : List Token} {a b : U8}
    (hx : (tokens (frameStep 1) x).1 = pre ++ [.noise a])
    (hall : (tokens (frameStep 1) (x ++ y)).1 = pre ++ .noise a :: .noise b :: post) :
    x.length = ((pre ++ [Token.noise a]).flatMap Token.bytes).length + 1 := by
  have hbytes := congrArg List.length (incremental_host.flatMap_tokens token_bytes x)
  have hpos := List.length_pos_iff.mpr (rest_ne_nil hx)
  have hwait := incremental_host.step_rest x
  rw [List.length_append, hx] at hbytes
  rw [incremental_host.tokens_append, hx] at hall
  have hnext := List.append_cancel_left (hall.trans (List.append_cons pre _ _))
  generalize (tokens (frameStep 1) x).2 = rest at *
  have hshort : rest.length < 2 := by
    by_contra hlong
    have hmagic : u16At rest 0 = safetyProtoMagic := by
      obtain hlen | ⟨-, hmagic, -⟩ | ⟨-, hmagic, -, -⟩ := frameStep_none hwait
      · exact absurd hlen hlong
      · exact hmagic
      · exact hmagic
    rw [← u16At_append_left y (by omega)] at hmagic
    cases hstep : frameStep 1 (rest ++ y) with
    | none =>
        rw [Scanner.Incremental.tokens_wait hstep] at hnext
        cases hnext
    | some r =>
        obtain ⟨t, n⟩ := r
        rw [incremental_host.tokens_found hstep] at hnext
        obtain ⟨rfl, -⟩ := List.cons.inj hnext
        obtain ⟨-, hne, -, -⟩ | ⟨-, -, -, ht, -⟩ | ⟨-, -, -, -, ht⟩ := frameStep_some hstep
        · exact hne hmagic
        · cases ht
        · cases ht
  omega

/-! Two ways of reading that differ in one end. -/

theorem mem_ends_append {front back : List (List U8)} {i : Nat} :
    i ∈ (List.range ((front ++ back).length + 1)).map (passedAfter (front ++ back)) ↔
      (∃ n, n ≤ front.length ∧ passedAfter front n = i) ∨
        ∃ n, n ≤ back.length ∧
          (tokens (frameStep 1) (front.flatten ++ (back.take n).flatten)).1.length = i := by
  simp only [List.mem_map, List.mem_range, passedAfter, List.length_append]
  constructor
  · rintro ⟨n, hn, rfl⟩
    obtain hle | hlt := Nat.lt_or_ge n front.length
    · exact .inl ⟨n, Nat.le_of_lt hle, by rw [List.take_append_of_le_length (Nat.le_of_lt hle)]⟩
    · obtain ⟨m, rfl⟩ := Nat.exists_eq_add_of_le hlt
      refine .inr ⟨m, by omega, ?_⟩
      rw [List.take_length_add_append, List.flatten_append]
  · rintro (⟨n, hn, rfl⟩ | ⟨n, hn, rfl⟩)
    · exact ⟨n, by omega, by rw [List.take_append_of_le_length hn]⟩
    · refine ⟨front.length + n, by omega, ?_⟩
      rw [List.take_length_add_append, List.flatten_append]

theorem begins_cut {front back : List (List U8)} {u v : List U8} {i : Nat} :
    Begins (front ++ u :: v :: back) i ↔
      Begins (front ++ (u ++ v) :: back) i ∨
        i = (tokens (frameStep 1) (front.flatten ++ u)).1.length := by
  have hflat : (front ++ u :: v :: back).flatten = (front ++ (u ++ v) :: back).flatten := by
    simp only [List.flatten_append, List.flatten_cons, List.append_assoc]
  rw [Begins, Begins, hflat, or_assoc]
  refine or_congr_right ?_
  rw [mem_ends_append, mem_ends_append, or_assoc]
  refine or_congr_right ?_
  constructor
  · rintro ⟨n, hn, rfl⟩
    obtain _ | _ | n := n
    · exact .inl ⟨0, Nat.zero_le _, rfl⟩
    · exact .inr (by simp)
    · refine .inl ⟨n + 1, by simpa using hn, ?_⟩
      simp only [List.take_succ_cons, List.flatten_cons, List.append_assoc]
  · rintro (⟨n, hn, rfl⟩ | rfl)
    · obtain _ | n := n
      · exact ⟨0, Nat.zero_le _, rfl⟩
      · refine ⟨n + 2, by simpa using hn, ?_⟩
        simp only [List.take_succ_cons, List.flatten_cons, List.append_assoc]
    · exact ⟨1, by simp, by simp⟩

/-- One byte at a time. -/
def singles (bytes : List U8) : List (List U8) := bytes.map fun b => [b]

theorem flatten_singles (bytes : List U8) : (singles bytes).flatten = bytes := by
  rw [singles, ← List.flatMap_def, List.flatMap_singleton']

theorem length_of_mem_singles {bytes : List U8} : ∀ c ∈ singles bytes, c.length = 1 := by
  intro c hc
  obtain ⟨b, -, rfl⟩ := List.mem_map.mp hc
  rfl

/-- No other read ends there. -/
theorem severed_unique {stream x z : List U8} {pre post : List Token} {a b : U8}
    (hxs : x <+: stream) (hx : (tokens (frameStep 1) x).1 = pre ++ [.noise a])
    (hall : (tokens (frameStep 1) stream).1 = pre ++ .noise a :: .noise b :: post)
    (hzs : z <+: stream) (hz : (tokens (frameStep 1) z).1.length = pre.length + 1) :
    z.length = x.length := by
  have hsame := tokens_of_length hzs hall hz
  obtain ⟨y, rfl⟩ := hxs
  obtain ⟨w, hw⟩ := hzs
  rw [length_of_severed hx hall, length_of_severed hsame (by rw [hw, hall])]

/-- Some bytes one by one, a few reads, and the rest one by one. -/
theorem isReading_singles (x y : List U8) {middle : List (List U8)}
    (h : ∀ c ∈ middle, 0 < c.length ∧ c.length ≤ 1024) :
    IsReading (x ++ (middle.flatten ++ y)) (singles x ++ (middle ++ singles y)) := by
  have hsingles : ∀ bytes, ∀ c ∈ singles bytes, 0 < c.length ∧ c.length ≤ 1024 := by
    intro bytes c hc
    rw [length_of_mem_singles c hc]
    decide
  refine ⟨?_, ?_⟩
  · rw [List.flatten_append, List.flatten_append, flatten_singles, flatten_singles]
  · exact List.forall_mem_append.mpr
      ⟨hsingles x, List.forall_mem_append.mpr ⟨h, hsingles y⟩⟩

/-- Where the two bytes around the place are read together, the noise goes on. -/
theorem not_begins_joined {x y : List U8} {u v a b : U8} {pre post : List Token}
    (hx : (tokens (frameStep 1) (x ++ [u])).1 = pre ++ [.noise a])
    (hall : (tokens (frameStep 1) (x ++ [u] ++ v :: y)).1 = pre ++ .noise a :: .noise b :: post)
    (hflat : (singles x ++ [u, v] :: singles y).flatten = x ++ [u] ++ v :: y) :
    ¬ Begins (singles x ++ [u, v] :: singles y) (pre.length + 1) := by
  rintro (hcontinues | hmem)
  · rw [hflat, hall] at hcontinues
    have hnoise := continues_append_right pre (.noise a :: .noise b :: post) 0
    rw [Nat.zero_add] at hnoise
    rw [hnoise] at hcontinues
    cases hcontinues
  · have hlength : ∀ z, z <+: x ++ [u] ++ v :: y →
        (tokens (frameStep 1) z).1.length = pre.length + 1 → z.length = x.length + 1 := by
      intro z hzs hz
      rw [severed_unique (List.prefix_append _ _) hx hall hzs hz, List.length_append,
        List.length_singleton]
    -- the other reads end before or behind
    obtain ⟨n, hn, hz⟩ | ⟨n, hn, hz⟩ := mem_ends_append.mp hmem
    · have hfront := prefix_flatten_take (singles x) n
      rw [flatten_singles] at hfront
      have hshort := hfront.length_le
      rw [hlength _ (hfront.trans ⟨[u] ++ v :: y, by rw [List.append_assoc]⟩) hz] at hshort
      omega
    · have hfront := prefix_flatten_take ([u, v] :: singles y) n
      have hz' := hlength _ (by
        rw [← hflat, List.flatten_append]
        exact (List.prefix_append_right_inj _).mpr hfront) hz
      rw [flatten_singles, List.length_append] at hz'
      cases n with
      | zero =>
          rw [List.take_zero, List.flatten_nil, List.length_nil] at hz'
          omega
      | succ n =>
          rw [List.take_succ_cons, List.flatten_cons, List.length_append, List.length_cons,
            List.length_singleton] at hz'
          omega

/-- A severable stream can be read in two ways that give some frame neighbouring
numbers. -/
theorem exists_readings {stream : List U8} (h : Severable stream) :
    ∃ chunks chunks' k f, IsReading stream chunks ∧ IsReading stream chunks' ∧
      (tokens (frameStep 1) stream).1[k]? = some (.frame f) ∧
      pieceNumber chunks k = pieceNumber chunks' k + 1 := by
  obtain ⟨x, pre, a, b, post, f, ⟨y, rfl⟩, hx, hall, hf⟩ := h
  obtain rfl | ⟨x, u, rfl⟩ := x.eq_nil_or_concat'
  · exact absurd hx (by simp [Scanner.Incremental.tokens_wait (frameStep_nil 1)])
  obtain _ | ⟨v, y⟩ := y
  · rw [List.append_nil, hx] at hall
    exact absurd (congrArg List.length hall) (by simp)
  have hstream : x ++ [u] ++ v :: y = x ++ ([u, v] ++ y) := by
    rw [List.append_assoc]
    rfl
  have hcut : IsReading (x ++ [u] ++ v :: y) (singles x ++ [u] :: [v] :: singles y) := by
    rw [hstream]
    exact @isReading_singles x y [[u], [v]] (by simp)
  have hjoined : IsReading (x ++ [u] ++ v :: y) (singles x ++ [u, v] :: singles y) := by
    rw [hstream]
    exact @isReading_singles x y [[u, v]] (by simp)
  have hend : (tokens (frameStep 1) ((singles x).flatten ++ [u])).1.length = pre.length + 1 := by
    rw [flatten_singles, hx, List.length_append, List.length_singleton]
  have hkept := not_begins_joined hx hall hjoined.1
  obtain ⟨j, hj⟩ := List.getElem?_of_mem hf
  refine ⟨_, _, pre.length + 1 + (j + 1), f, hcut, hjoined, ?_, ?_⟩
  · rw [hall, List.getElem?_append_right (by omega)]
    have hindex : pre.length + 1 + (j + 1) - pre.length = j + 1 + 1 := by omega
    rw [hindex, List.getElem?_cons_succ, List.getElem?_cons_succ, hj]
  · rw [pieceNumber, pieceNumber,
      Numbering.count_insert (fun i => begins_cut) (by rwa [hend]), hend, if_pos (by omega)]
    rfl

/-- Two ways of reading a stream treat its frames alike exactly when every frame
fares the same under its two numbers. All ways do so, for all configurations,
exactly when no frame has two bytes of noise before it between which a read can
end. -/
theorem injection_chunking_iff (dir : Direction) :
    (∀ (cfg : InjectorConfig) (chunks chunks' : List (List U8)),
      chunks.flatten = chunks'.flatten →
      (fates cfg dir chunks = fates cfg dir chunks' ↔
        ∀ k f, (tokens (frameStep 1) chunks.flatten).1[k]? = some (.frame f) →
          SameFate cfg f (pieceNumber chunks k) (pieceNumber chunks' k))) ∧
    ∀ stream : List U8,
      (∀ cfg chunks chunks', IsReading stream chunks → IsReading stream chunks' →
        fates cfg dir chunks = fates cfg dir chunks') ↔ ¬ Severable stream := by
  refine ⟨fun cfg chunks chunks' h => fates_eq_iff cfg dir h, fun stream => ⟨?_, ?_⟩⟩
  · intro hsame hsever
    obtain ⟨chunks, chunks', k, f, hread, hread', hk, hnumber⟩ := exists_readings hsever
    -- every second piece is dropped: of two neighbouring numbers just one is even
    have hfates := hsame { dropEvery := 2 } chunks chunks' hread hread'
    rw [fates_eq_iff _ _ (hread.1.trans hread'.1.symm), hread.1] at hfates
    have hdrops := (hfates k f hk).1
    rw [hnumber, Drops, Drops] at hdrops
    simp only [Int.reduceNeg, Int.reduceLT, true_or, and_true, true_and] at hdrops
    omega
  · rintro hnot cfg chunks chunks' ⟨rfl, -⟩ ⟨hflat, -⟩
    rw [fates_eq_iff _ _ hflat.symm]
    intro k f hk
    have hnumber : pieceNumber chunks k = pieceNumber chunks' k := by
      rw [pieceNumber_eq hnot hk, pieceNumber_eq (by rwa [hflat]) (by rwa [hflat]), hflat]
    rw [hnumber]
    exact ⟨Iff.rfl, fun _ => Iff.rfl⟩

theorem fates_zeros :
    fates { dropEvery := 2 } .leftToRight [[0, 0] ++ packFrame safetyFrameHeartbeat 0 0 []] ≠
      fates { dropEvery := 2 } .leftToRight [[0, 0], packFrame safetyFrameHeartbeat 0 0 []] := by
  decide +kernel

/-- Two zeros before a heartbeat, every second piece dropped: it is dropped when
the zeros come with it, and forwarded when they come before. -/
theorem chunking_drops_heartbeat :
    let hb := packFrame safetyFrameHeartbeat 0 0 []
    IsReading ([0, 0] ++ hb) [[0, 0] ++ hb] ∧ IsReading ([0, 0] ++ hb) [[0, 0], hb] ∧
      fates { dropEvery := 2 } .leftToRight [[0, 0] ++ hb] ≠
        fates { dropEvery := 2 } .leftToRight [[0, 0], hb] :=
  ⟨⟨rfl, by decide +kernel⟩, ⟨rfl, by decide +kernel⟩, fates_zeros⟩

/-- The heartbeat has another number in each. -/
theorem injection_chunking_noise :
    let hb := packFrame safetyFrameHeartbeat 0 0 []
    ¬ ∀ k f, (tokens (frameStep 1) [[0, 0] ++ hb].flatten).1[k]? = some (.frame f) →
      SameFate { dropEvery := 2 } f (pieceNumber [[0, 0] ++ hb] k)
        (pieceNumber [[0, 0], hb] k) := by
  intro hb
  have hiff := (injection_chunking_iff .leftToRight).1 { dropEvery := 2 } [[0, 0] ++ hb]
    [[0, 0], hb] rfl
  rw [← hiff]
  exact fates_zeros

end SafetyCopro
