import SafetyCopro.Bridge.FaultInjector
import SafetyCopro.Supervisor.Frames

/-!
What the injector and the loop of `forward` do to a sequence of frames. The
injector counts all frames, also those of a type that is never dropped; the
loop leaves a frame where a write fails, also when part of it is out already.
-/

namespace SafetyCopro

/-! ### The frames that are dropped -/

namespace FaultInjector

/-- `type` in `process`; a piece without a whole header has type zero. -/
def typeOf (frame : List U8) : U8 :=
  (SafetyFrameHeader.ofBytes (if safetyHeaderSize ≤ frame.length then frame else [])).type

def step (inj : FaultInjector) (frame : List U8 × Direction) : FaultInjector × List Processed :=
  let (inj, processed) := inj.process frame.1 frame.2
  (inj, [processed])

/-- What a new injector makes of each of the frames it gets. -/
def run (cfg : InjectorConfig) (frames : List (List U8 × Direction)) : List Processed :=
  Machine.outputs step { cfg } frames

/-- The frame at this place is not forwarded. -/
def Dropped (cfg : InjectorConfig) (frames : List (List U8 × Direction)) (i : Nat) : Prop :=
  (run cfg frames)[i]?.map Processed.forwarded = some false

instance (cfg : InjectorConfig) (frames : List (List U8 × Direction)) (i : Nat) :
    Decidable (Dropped cfg frames i) :=
  inferInstanceAs (Decidable (_ = _))

theorem outputs_getElem? (inj : FaultInjector) (frames : List (List U8 × Direction)) (i : Nat) :
    (Machine.outputs step inj frames)[i]? =
      frames[i]?.map fun frame =>
        (process { inj with frameCounter := inj.frameCounter + i } frame.1 frame.2).2 := by
  induction frames generalizing inj i with
  | nil => rfl
  | cons frame frames ih =>
      cases i with
      | zero => rfl
      | succ i =>
          have hnext : (inj.step frame).1 = { inj with frameCounter := inj.frameCounter + 1 } :=
            process_injector inj frame.1 frame.2
          rw [Machine.outputs_cons, hnext]
          have hone : (inj.step frame).2 = [(inj.process frame.1 frame.2).2] := rfl
          rw [hone, List.singleton_append, List.getElem?_cons_succ, List.getElem?_cons_succ, ih,
            Nat.add_assoc, Nat.add_comm 1]

theorem process_forwarded (inj : FaultInjector) (frame : List U8) (dir : Direction) :
    (inj.process frame dir).2.forwarded = false ↔
      0 < inj.cfg.dropEvery ∧
        (inj.cfg.dropType < 0 ∨ typeOf frame = BitVec.ofInt 8 inj.cfg.dropType) ∧
        inj.cfg.dropEvery ∣ (inj.frameCounter + 1 : Nat) := by
  rw [Int.dvd_iff_emod_eq_zero]
  simp only [process, typeOf]
  generalize SafetyFrameHeader.ofBytes (if safetyHeaderSize ≤ frame.length then frame else []) = hdr
  split
  · rename_i hdrop
    exact iff_of_true rfl hdrop
  · rename_i hdrop
    exact iff_of_false Bool.true_eq_false.mp hdrop

theorem dropped_iff {cfg : InjectorConfig} {pre post : List (List U8 × Direction)}
    {frame : List U8 × Direction} :
    Dropped cfg (pre ++ frame :: post) pre.length ↔
      0 < cfg.dropEvery ∧
        (cfg.dropType < 0 ∨ typeOf frame.1 = BitVec.ofInt 8 cfg.dropType) ∧
        cfg.dropEvery ∣ (pre.length + 1 : Nat) := by
  have hframe : (pre ++ frame :: post)[pre.length]? = some frame := by
    rw [List.getElem?_append_right (Nat.le_refl _), Nat.sub_self, List.getElem?_cons_zero]
  rw [Dropped, run, outputs_getElem?, hframe, Option.map_some, Option.map_some,
    Option.some.injEq, process_forwarded, Nat.zero_add]

/-- How many of the frames have this type. -/
def ofType (type : U8) (frames : List (List U8 × Direction)) : Nat :=
  frames.countP fun frame => typeOf frame.1 = type

def notOfType (type : U8) (frames : List (List U8 × Direction)) : Nat :=
  frames.countP fun frame => ¬ typeOf frame.1 = type

theorem ofType_add_notOfType (type : U8) (frames : List (List U8 × Direction)) :
    ofType type frames + notOfType type frames = frames.length := by
  rw [ofType, notOfType, List.length_eq_countP_add_countP (fun frame => typeOf frame.1 = type)]
  simp only [decide_not, decide_eq_true_eq]

/-- With a type given, just the frames of that type are dropped whose number
among all frames, whatever their type and direction, is a multiple of the rate. -/
theorem typed_drop {cfg : InjectorConfig} (hrate : 0 < cfg.dropEvery) (htype : 0 ≤ cfg.dropType)
    (hbyte : cfg.dropType ≤ 255) (pre post : List (List U8 × Direction))
    (frame : List U8 × Direction) :
    Dropped cfg (pre ++ frame :: post) pre.length ↔
      ((typeOf frame.1).toNat : Int) = cfg.dropType ∧
        cfg.dropEvery ∣
          (ofType (typeOf frame.1) (pre ++ [frame]) + notOfType (typeOf frame.1) pre : Nat) := by
  have hcount : ofType (typeOf frame.1) (pre ++ [frame]) + notOfType (typeOf frame.1) pre =
      pre.length + 1 := by
    have hall := ofType_add_notOfType (typeOf frame.1) pre
    rw [ofType] at hall
    rw [ofType, List.countP_append, List.countP_singleton, if_pos (decide_eq_true rfl)]
    omega
  have hsame : typeOf frame.1 = BitVec.ofInt 8 cfg.dropType ↔
      ((typeOf frame.1).toNat : Int) = cfg.dropType := by
    rw [BitVec.toNat_eq, BitVec.toNat_ofInt]
    omega
  rw [dropped_iff, hcount, hsame, or_iff_right (Int.not_lt.mpr htype), and_iff_right hrate]

/-- A heartbeat, a telemetry frame and a heartbeat, with every third heartbeat
to be dropped. -/
theorem typed_drop_third :
    Dropped { dropEvery := 3, dropType := 1 }
      ([(packFrame safetyFrameHeartbeat 0 0 [], .leftToRight),
        (packFrame safetyFrameTelemetry 1 0 [], .rightToLeft)] ++
        [(packFrame safetyFrameHeartbeat 2 0 [], .leftToRight)]) 2 :=
  (typed_drop (by decide) (by decide) (by decide) _ _ _).mpr (by decide +kernel)

/-- The second heartbeat of the three frames is the third frame. -/
theorem typed_drop_shared_counter :
    let frames : List (List U8 × Direction) :=
      [(packFrame safetyFrameHeartbeat 0 0 [], .leftToRight),
        (packFrame safetyFrameTelemetry 1 0 [], .rightToLeft),
        (packFrame safetyFrameHeartbeat 2 0 [], .leftToRight)]
    ¬ (Dropped { dropEvery := 3, dropType := 1 } frames 2 ↔
      typeOf (packFrame safetyFrameHeartbeat 2 0 []) = 1 ∧ 3 ∣ ofType 1 frames) := by
  decide +kernel

end FaultInjector

/-! ### The frames that are written -/

/-- What reaches the peer is made of whole frames, and a frame that does not
reach it in full does not reach it at all. -/
def AllOrNothing (passed : List Passed) : Prop :=
  (∃ whole : List Passed, whole.Sublist passed ∧
    passed.flatMap (fun p => p.written) = whole.flatMap Passed.sent) ∧
  ∀ p ∈ passed, p.written ≠ p.sent → p.written = []

/-- The sizes of the frames that are not dropped. -/
def forwardedSizes (dir : Direction) : FaultInjector → List (List U8) → List Nat
  | _, [] => []
  | inj, piece :: pieces =>
      let (inj, processed) := inj.process piece dir
      if processed.forwarded then processed.frame.length :: forwardedSizes dir inj pieces
      else forwardedSizes dir inj pieces

/-- No write fails when `off` bytes of its frame, some and not all, are out.
The sizes are those of the frames to come. -/
def Unbroken : List Nat → Nat → List WriteResult → Prop
  | [], _, _ => True
  | _, _, [] => True
  | size :: sizes, off, r :: results =>
      if size ≤ off then Unbroken sizes 0 (r :: results)
      else
        match r with
        | .wrote n => Unbroken (size :: sizes) (off + n) results
        | .eintr => Unbroken (size :: sizes) off results
        | .failed => off = 0 ∧ Unbroken sizes 0 results
termination_by sizes _ results => sizes.length + results.length

theorem unbroken_nil (sizes : List Nat) (off : Nat) : Unbroken sizes off [] := by
  cases sizes <;> simp only [Unbroken]

/-- A frame that is out in full. -/
theorem unbroken_done {size off : Nat} (h : size ≤ off) (sizes : List Nat)
    (results : List WriteResult) :
    Unbroken (size :: sizes) off results ↔ Unbroken sizes 0 results := by
  cases results with
  | nil => exact iff_of_true (unbroken_nil _ _) (unbroken_nil _ _)
  | cons r results => cases r <;> simp only [Unbroken, if_pos h]

/-- The loop that writes one frame, from the middle of it on. -/
theorem unbroken_writeFrame {size off : Nat} {bytes : List U8} (hleft : bytes.length = size - off)
    (sizes : List Nat) (results : List WriteResult) :
    Unbroken (size :: sizes) off results ↔
      ((writeFrame bytes results).1 = bytes ∨ off = 0 ∧ (writeFrame bytes results).1 = []) ∧
        Unbroken sizes 0 (writeFrame bytes results).2 := by
  induction results generalizing off bytes with
  | nil =>
      have hall : writeFrame bytes [] = (bytes, []) := by cases bytes <;> rfl
      rw [hall]
      exact iff_of_true (unbroken_nil _ _) ⟨.inl rfl, unbroken_nil _ _⟩
  | cons r results ih =>
      cases bytes with
      | nil =>
          rw [unbroken_done (Nat.le_of_sub_eq_zero hleft.symm), writeFrame]
          exact (and_iff_right (.inl rfl)).symm
      | cons b bytes =>
          have hopen : ¬ size ≤ off := by
            rw [List.length_cons] at hleft
            omega
          cases r with
          | wrote n =>
              have hdrop : ((b :: bytes).drop n).length = size - (off + n) := by
                rw [List.length_drop, hleft, Nat.sub_add_eq]
              have hall : ∀ rest : List U8,
                  (b :: bytes).take n ++ rest = b :: bytes ↔ rest = (b :: bytes).drop n := by
                intro rest
                nth_rewrite 2 [← List.take_append_drop n (b :: bytes)]
                exact List.append_right_inj _
              have hnone : (b :: bytes).take n = [] ↔ n = 0 := by
                simp [List.take_eq_nil_iff]
              simp only [Unbroken, if_neg hopen, ih hdrop, writeFrame, hall, List.append_eq_nil_iff,
                hnone, Nat.add_eq_zero_iff, and_assoc]
          | eintr => simp only [Unbroken, if_neg hopen, ih hleft, writeFrame]
          | failed =>
              have hne : [] ≠ b :: bytes := (List.cons_ne_nil b bytes).symm
              simp only [Unbroken, if_neg hopen, writeFrame, hne, false_or, and_true]

/-- Frame by frame: all of it is written, or nothing. -/
theorem unbroken_forwardPieces (dir : Direction) (inj : FaultInjector) (pieces : List (List U8))
    (results : List WriteResult) :
    (∀ p ∈ (forwardPieces dir inj pieces results).2, p.written = p.sent ∨ p.written = []) ↔
      Unbroken (forwardedSizes dir inj pieces) 0 results := by
  induction pieces generalizing inj results with
  | nil =>
      simp only [forwardPieces, forwardedSizes, Unbroken]
      exact iff_of_true (List.forall_mem_nil _) trivial
  | cons piece pieces ih =>
      simp only [forwardPieces, forwardedSizes]
      rw [List.forall_mem_cons, ih]
      by_cases hforwarded : (inj.process piece dir).2.forwarded
      · simp only [if_pos hforwarded, Passed.sent]
        rw [unbroken_writeFrame (Nat.sub_zero _).symm]
        simp only [true_and]
      · simp only [if_neg hforwarded, Passed.sent, or_self, true_and]

theorem allOrNothing_iff {passed : List Passed} :
    AllOrNothing passed ↔ ∀ p ∈ passed, p.written = p.sent ∨ p.written = [] := by
  constructor
  · rintro ⟨-, hnone⟩ p hp
    by_cases hall : p.written = p.sent
    · exact .inl hall
    · exact .inr (hnone p hp hall)
  · intro h
    refine ⟨⟨passed.filter fun p => p.written = p.sent, List.filter_sublist, ?_⟩, fun p hp hne =>
      (h p hp).resolve_left hne⟩
    induction passed with
    | nil => rfl
    | cons p passed ih =>
        obtain ⟨hp, hpassed⟩ := List.forall_mem_cons.mp h
        rw [List.flatMap_cons, ih hpassed]
        by_cases hall : p.written = p.sent
        · rw [List.filter_cons_of_pos (by simpa using hall), List.flatMap_cons, hall]
        · rw [List.filter_cons_of_neg (by simpa using hall), hp.resolve_left hall,
            List.nil_append]

/-- The loop of `forward` writes whole frames only, exactly when no write fails
in the middle of one. -/
theorem forward_allOrNothing_iff (dir : Direction) (inj : FaultInjector)
    (pieces : List (List U8)) (results : List WriteResult) :
    AllOrNothing (forwardPieces dir inj pieces results).2 ↔
      Unbroken (forwardedSizes dir inj pieces) 0 results :=
  allOrNothing_iff.trans (unbroken_forwardPieces dir inj pieces results)

/-- One byte of a frame is taken and the next write fails. -/
theorem forward_torn_frame :
    ¬ AllOrNothing (forwardPieces .leftToRight { cfg := {} }
      [packFrame safetyFrameHeartbeat 0 0 []] [.wrote 1, .failed]).2 := by
  rintro ⟨-, h⟩
  exact absurd (h _ List.mem_cons_self) (by decide +kernel)

end SafetyCopro
