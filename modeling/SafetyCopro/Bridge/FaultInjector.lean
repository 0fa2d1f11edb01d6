import Mathlib.Logic.Function.Basic
import SafetyCopro.Bridge.ByteFramer
import SafetyCopro.Lib.Machine

/-!
The fault injector of the bridge, `fault_injector.cpp`, and the loop of
`pty_bridge.cpp` around it. One injector counts the pieces of both directions;
each direction has a framer of its own.
-/

namespace SafetyCopro

/-- The ints of the command line. -/
structure InjectorConfig where
  dropEvery : Int := 0
  corruptEvery : Int := 0
  delayMs : Int := 0
  dropType : Int := -1
deriving DecidableEq, Repr

inductive Action
  | forward | drop | corrupt | delay
deriving DecidableEq, Repr

inductive Direction
  | leftToRight | rightToLeft
deriving DecidableEq, Repr

/-- What `log_line` writes, without the time. -/
structure LogLine where
  dir : Direction
  type : U8
  seq : U16
  len : Nat
  action : Action
deriving DecidableEq, Repr

/-- How `process` leaves a frame, what it returns and what it logs. -/
structure Processed where
  frame : List U8
  forwarded : Bool
  outDelayMs : Int := 0
  line : LogLine
deriving DecidableEq, Repr

/-- `frame_counter_` is a `long`, whose overflow is undefined. -/
structure FaultInjector where
  cfg : InjectorConfig
  frameCounter : Nat := 0
deriving DecidableEq, Repr

namespace FaultInjector

def process (inj : FaultInjector) (frame : List U8) (dir : Direction) :
    FaultInjector × Processed :=
  let cfg := inj.cfg
  let frameCounter := inj.frameCounter + 1
  -- a piece without a whole header leaves the header zero
  let hdr := SafetyFrameHeader.ofBytes (if safetyHeaderSize ≤ frame.length then frame else [])
  let line (action : Action) : LogLine := ⟨dir, hdr.type, hdr.sequenceId, frame.length, action⟩
  let typeMatch := cfg.dropType < 0 ∨ hdr.type = BitVec.ofInt 8 cfg.dropType
  if 0 < cfg.dropEvery ∧ typeMatch ∧ (frameCounter : Int) % cfg.dropEvery = 0 then
    ({ cfg, frameCounter }, { frame, forwarded := false, line := line .drop })
  else
    let corrupt := 0 < cfg.corruptEvery ∧ (frameCounter : Int) % cfg.corruptEvery = 0 ∧
      safetyHeaderSize ≤ frame.length
    let action := if corrupt then .corrupt else if 0 < cfg.delayMs then .delay else .forward
    ({ cfg, frameCounter },
      { frame := if corrupt then frame.modify 12 (· ^^^ 0xFF#8) else frame
        forwarded := true
        outDelayMs := if 0 < cfg.delayMs then cfg.delayMs else 0
        line := line action })

end FaultInjector

/-- What a `write` does: take some of the bytes, be interrupted, or fail. -/
inductive WriteResult
  | wrote (n : Nat)
  | eintr
  | failed
deriving DecidableEq, Repr

/-- The loop that writes one frame: the bytes the peer gets, and the results of
later writes. A write beyond the results given takes everything. -/
def writeFrame : List U8 → List WriteResult → List U8 × List WriteResult
  | [], results => ([], results)
  | bytes, [] => (bytes, [])
  | b :: bytes, .wrote n :: results =>
      let r := writeFrame ((b :: bytes).drop n) results
      ((b :: bytes).take n ++ r.1, r.2)
  | b :: bytes, .eintr :: results => writeFrame (b :: bytes) results
  | _ :: _, .failed :: results => ([], results)
termination_by structural _ results => results

/-- One turn of the loop of `forward`. -/
structure Passed where
  dir : Direction
  -- the counter when the piece was processed
  number : Nat
  piece : List U8
  processed : Processed
  written : List U8
deriving DecidableEq, Repr

/-- The loop of `forward` over the pieces of one read. -/
def forwardPieces (dir : Direction) :
    FaultInjector → List (List U8) → List WriteResult → FaultInjector × List Passed
  | inj, [], _ => (inj, [])
  | inj, piece :: pieces, results =>
      let (inj, processed) := inj.process piece dir
      let (written, results) :=
        if processed.forwarded then writeFrame processed.frame results else ([], results)
      let r := forwardPieces dir inj pieces results
      (r.1, ⟨dir, inj.frameCounter, piece, processed, written⟩ :: r.2)

structure Bridge where
  injector : FaultInjector
  framer : Direction → List U8 := fun _ => []

/-- A read on one side, and what the writes on the other do. -/
structure BridgeInput where
  dir : Direction
  data : List U8
  results : List WriteResult := []
deriving DecidableEq, Repr

namespace Bridge

/-- `forward`. A read that brings nothing ends it. -/
def step (b : Bridge) (input : BridgeInput) : Bridge × List Passed :=
  if input.data = [] then (b, [])
  else
    let (pieces, buf) := ByteFramer.feed (b.framer input.dir) input.data
    let (injector, passed) := forwardPieces input.dir b.injector pieces input.results
    ({ injector, framer := Function.update b.framer input.dir buf }, passed)

end Bridge

/-! ### What a run shows of one direction -/

/-- The bytes the injector hands on for a piece. -/
def Passed.sent (p : Passed) : List U8 := if p.processed.forwarded then p.processed.frame else []

section Streams
variable (dir : Direction)

def readBytes (inputs : List BridgeInput) : List U8 :=
  (inputs.filter fun input => input.dir = dir).flatMap fun input => input.data

def passedOf (events : List Passed) : List Passed := events.filter fun p => p.dir = dir

def sentBytes (events : List Passed) : List U8 := (passedOf dir events).flatMap Passed.sent

def writtenBytes (events : List Passed) : List U8 :=
  (passedOf dir events).flatMap fun p => p.written

end Streams

/-! ### One piece -/

namespace FaultInjector
variable (inj : FaultInjector) (frame : List U8) (dir : Direction)

@[simp] theorem process_injector :
    (inj.process frame dir).1 = { inj with frameCounter := inj.frameCounter + 1 } := by
  simp only [process, apply_ite Prod.fst, ite_self]

/-- The frames `process` drops, by their number. -/
def Drops (cfg : InjectorConfig) (number : Nat) (frame : List U8) : Prop :=
  0 < cfg.dropEvery ∧ cfg.dropEvery ∣ number ∧
    (cfg.dropType < 0 ∨
      (SafetyFrameHeader.ofBytes frame).type = BitVec.ofInt 8 cfg.dropType)

/-- The frames it corrupts, if it does not drop them. -/
def Corrupts (cfg : InjectorConfig) (number : Nat) : Prop :=
  0 < cfg.corruptEvery ∧ cfg.corruptEvery ∣ number

instance (cfg : InjectorConfig) (number : Nat) (frame : List U8) :
    Decidable (Drops cfg number frame) := inferInstanceAs (Decidable (_ ∧ _ ∧ _))

instance (cfg : InjectorConfig) (number : Nat) : Decidable (Corrupts cfg number) :=
  inferInstanceAs (Decidable (_ ∧ _))

variable {inj frame}

/-- What `process` does with a whole frame. -/
theorem process_frame (h : safetyHeaderSize ≤ frame.length) :
    (inj.process frame dir).2.forwarded = decide (¬ Drops inj.cfg (inj.frameCounter + 1) frame) ∧
      (¬ Drops inj.cfg (inj.frameCounter + 1) frame →
        (inj.process frame dir).2.frame =
          if Corrupts inj.cfg (inj.frameCounter + 1) then frame.modify 12 (· ^^^ 0xFF#8)
          else frame) := by
  have hdrops : (0 < inj.cfg.dropEvery ∧
      (inj.cfg.dropType < 0 ∨
        (SafetyFrameHeader.ofBytes frame).type = BitVec.ofInt 8 inj.cfg.dropType) ∧
      ((inj.frameCounter + 1 : Nat) : Int) % inj.cfg.dropEvery = 0) ↔
        Drops inj.cfg (inj.frameCounter + 1) frame := by
    rw [Drops, Int.dvd_iff_emod_eq_zero, and_comm (b := _ % _ = 0)]
  have hcorrupts : (0 < inj.cfg.corruptEvery ∧
      ((inj.frameCounter + 1 : Nat) : Int) % inj.cfg.corruptEvery = 0 ∧
      safetyHeaderSize ≤ frame.length) ↔ Corrupts inj.cfg (inj.frameCounter + 1) := by
    rw [Corrupts, Int.dvd_iff_emod_eq_zero, and_iff_left h]
  simp only [process, if_pos h, hdrops, hcorrupts]
  by_cases hdrop : Drops inj.cfg (inj.frameCounter + 1) frame
  · rw [if_pos hdrop]
    exact ⟨by simp [hdrop], fun hnot => absurd hdrop hnot⟩
  · rw [if_neg hdrop]
    exact ⟨by simp [hdrop], fun _ => rfl⟩

/-- With dropping and corrupting off, every piece is handed on as it is. -/
theorem process_off (hdrop : inj.cfg.dropEvery ≤ 0) (hcorrupt : inj.cfg.corruptEvery ≤ 0)
    (frame : List U8) :
    (inj.process frame dir).2.forwarded = true ∧ (inj.process frame dir).2.frame = frame := by
  have hnodrop : ¬ 0 < inj.cfg.dropEvery := Int.not_lt.mpr hdrop
  have hnocorrupt : ¬ 0 < inj.cfg.corruptEvery := Int.not_lt.mpr hcorrupt
  simp only [process, hnodrop, hnocorrupt, false_and, if_false, and_self]

end FaultInjector

/-! ### One read -/

theorem writeFrame_complete (bytes : List U8) {results : List WriteResult}
    (h : .failed ∉ results) :
    (writeFrame bytes results).1 = bytes ∧ (writeFrame bytes results).2 <:+ results := by
  induction results generalizing bytes with
  | nil => cases bytes <;> exact ⟨rfl, List.suffix_rfl⟩
  | cons r results ih =>
      have hrest : .failed ∉ results := fun hmem => h (List.mem_cons_of_mem _ hmem)
      cases bytes with
      | nil => exact ⟨rfl, List.suffix_rfl⟩
      | cons b bytes =>
          cases r with
          | wrote n =>
              obtain ⟨hbytes, hsuffix⟩ := ih ((b :: bytes).drop n) hrest
              rw [writeFrame, hbytes]
              exact ⟨List.take_append_drop n _, hsuffix.trans (List.suffix_cons _ _)⟩
          | eintr =>
              obtain ⟨hbytes, hsuffix⟩ := ih (b :: bytes) hrest
              rw [writeFrame]
              exact ⟨hbytes, hsuffix.trans (List.suffix_cons _ _)⟩
          | failed => exact absurd List.mem_cons_self h

/-- A turn of the loop was made by `process`. -/
def Passed.By (cfg : InjectorConfig) (p : Passed) : Prop :=
  ∃ inj : FaultInjector, inj.cfg = cfg ∧ p.number = inj.frameCounter + 1 ∧
    p.processed = (inj.process p.piece p.dir).2

variable {dir : Direction}

theorem forwardPieces_injector (inj : FaultInjector) (pieces : List (List U8))
    (results : List WriteResult) :
    (forwardPieces dir inj pieces results).1 =
      { inj with frameCounter := inj.frameCounter + pieces.length } := by
  induction pieces generalizing inj results with
  | nil => rfl
  | cons piece pieces ih =>
      simp only [forwardPieces, ih, FaultInjector.process_injector, List.length_cons]
      rw [Nat.add_assoc, Nat.add_comm 1]

theorem forwardPieces_pieces (inj : FaultInjector) (pieces : List (List U8))
    (results : List WriteResult) :
    (forwardPieces dir inj pieces results).2.map Passed.piece = pieces := by
  induction pieces generalizing inj results with
  | nil => rfl
  | cons piece pieces ih => simp only [forwardPieces, List.map_cons, ih]

theorem forwardPieces_numbers (inj : FaultInjector) (pieces : List (List U8))
    (results : List WriteResult) :
    (forwardPieces dir inj pieces results).2.map Passed.number =
      List.range' (inj.frameCounter + 1) pieces.length := by
  induction pieces generalizing inj results with
  | nil => rfl
  | cons piece pieces ih =>
      simp only [forwardPieces, List.map_cons, ih, FaultInjector.process_injector,
        List.length_cons, List.range'_succ]

theorem forwardPieces_by {inj : FaultInjector} {pieces : List (List U8)}
    {results : List WriteResult} :
    ∀ p ∈ (forwardPieces dir inj pieces results).2, p.dir = dir ∧ p.By inj.cfg := by
  induction pieces generalizing inj results with
  | nil => exact List.forall_mem_nil _
  | cons piece pieces ih =>
      simp only [forwardPieces, FaultInjector.process_injector]
      exact List.forall_mem_cons.mpr ⟨⟨rfl, inj, rfl, rfl, rfl⟩, ih⟩

theorem forwardPieces_written {inj : FaultInjector} {pieces : List (List U8)}
    {results : List WriteResult} (h : .failed ∉ results) :
    ∀ p ∈ (forwardPieces dir inj pieces results).2, p.written = p.sent := by
  induction pieces generalizing inj results with
  | nil => exact List.forall_mem_nil _
  | cons piece pieces ih =>
      simp only [forwardPieces]
      by_cases hforwarded : (inj.process piece dir).2.forwarded
      · obtain ⟨hbytes, hsuffix⟩ := writeFrame_complete (inj.process piece dir).2.frame h
        simp only [if_pos hforwarded]
        refine List.forall_mem_cons.mpr ⟨?_, ih fun hmem => h (hsuffix.subset hmem)⟩
        rw [Passed.sent, if_pos hforwarded, hbytes]
      · simp only [if_neg hforwarded]
        refine List.forall_mem_cons.mpr ⟨?_, ih h⟩
        rw [Passed.sent, if_neg hforwarded]

end SafetyCopro
