import SafetyCopro.Firmware.Operations
import SafetyCopro.Firmware.Transmitter

/-!
The order of the frames on the UART. A task draws its number before it asks for
the mutex, and the mutex goes to any task that asks. The numbers on the wire
count up as long as it goes to the task that has waited longest; a task that is
let in ahead of an older number puts the two out in the wrong order.
-/

namespace SafetyCopro

theorem getElem?_concat_eq_some_iff {α : Type} {l : List α} {a b : α} {i : Nat} :
    (l ++ [a])[i]? = some b ↔ l[i]? = some b ∨ i = l.length ∧ a = b := by
  obtain hlt | heq | hgt := Nat.lt_trichotomy i l.length
  · rw [List.getElem?_append_left hlt]
    exact ⟨Or.inl, fun h => h.elim id fun h => absurd h.1 (Nat.ne_of_lt hlt)⟩
  · simp [heq]
  · have hlen : (l ++ [a]).length ≤ i := by
      rw [List.length_append, List.length_singleton]
      exact hgt
    rw [List.getElem?_eq_none hlen, List.getElem?_eq_none (Nat.le_of_lt hgt)]
    exact iff_of_false nofun fun h => h.elim nofun fun h => Nat.ne_of_gt hgt h.1

/-- Valid frames, numbered from zero on. -/
def InSequence (frames : List (List U8)) : Prop :=
  ∀ i frame, frames[i]? = some frame →
    ValidFrame frame ∧ (SafetyFrameHeader.ofBytes frame).sequenceId = BitVec.ofNat 16 i

theorem InSequence.isFrame {frames : List (List U8)} (h : InSequence frames) :
    ∀ f ∈ frames, IsFrame f := by
  intro f hf
  obtain ⟨i, hi⟩ := List.mem_iff_getElem?.mp hf
  exact (h i f hi).1.isFrame

theorem inSequence_concat {frames : List (List U8)} {frame : List U8} :
    InSequence (frames ++ [frame]) ↔
      InSequence frames ∧ ValidFrame frame ∧
        (SafetyFrameHeader.ofBytes frame).sequenceId = BitVec.ofNat 16 frames.length := by
  constructor
  · intro h
    refine ⟨fun i f hi => ?_, ?_⟩
    · exact h i f (getElem?_concat_eq_some_iff.mpr (Or.inl hi))
    · exact h frames.length frame (getElem?_concat_eq_some_iff.mpr (Or.inr ⟨rfl, rfl⟩))
  · rintro ⟨h, hframe⟩ i f hi
    obtain hi | ⟨rfl, rfl⟩ := getElem?_concat_eq_some_iff.mp hi
    · exact h i f hi
    · exact hframe

theorem sequenceId_packFrame (type : U8) (seq : U16) (tsMs : U32) (payload : List U8) :
    (SafetyFrameHeader.ofBytes (packFrame type seq tsMs payload)).sequenceId = seq := by
  rw [packFrame, ofBytes_toBytes_append]
  rfl

namespace Firmware

/-- The bytes put out so far, and those the owner of the mutex still has to put
out, are valid frames that count up from zero. -/
def WireInSequence (evs : List FirmwareEvent) (fw : Firmware) : Prop :=
  ∃ frames, InSequence frames ∧ pollOuts evs ++ fw.remaining = frames.flatten

/-- How many numbers were drawn since the one in the frame, itself included. -/
def age (fw : Firmware) (frame : List U8) : U16 :=
  BitVec.ofNat 16 fw.txSequence - (SafetyFrameHeader.ofBytes frame).sequenceId

/-- The step takes the mutex while another task waits for it with an older
number. -/
def Overtakes (fw : Firmware) : FirmwareInput → Prop
  | .task t _ => fw.txMutex = none ∧ ∃ frame t' frame',
      fw.tx t = .locking frame ∧ fw.tx t' = .locking frame' ∧ fw.age frame < fw.age frame'
  | .receive _ => False

/-! ### The queue at the mutex -/

/-- The task waits for the mutex with the frame of this number. -/
def HoldsNumber (fw : Firmware) (t : Task) (n : Nat) : Prop :=
  ∃ frame, fw.tx t = .locking frame ∧ ValidFrame frame ∧
    (SafetyFrameHeader.ofBytes frame).sequenceId = BitVec.ofNat 16 n

/-- Of the numbers drawn, the first are on the wire in order, and the others are
held by the tasks that wait, in the order in which they were drawn. -/
structure TxOrder (evs : List FirmwareEvent) (fw : Firmware) (frames : List (List U8))
    (waiting : List Task) : Prop where
  sound : fw.TxSound
  sequence : InSequence frames
  wire : pollOuts evs ++ fw.remaining = frames.flatten
  nodup : waiting.Nodup
  drawn : fw.txSequence = frames.length + waiting.length
  number : ∀ i t, waiting[i]? = some t → fw.HoldsNumber t (frames.length + i)
  waits : ∀ t frame, fw.tx t = .locking frame → t ∈ waiting

theorem txOrder_init : TxOrder [] {} [] [] :=
  ⟨txSound_init, nofun, rfl, List.nodup_nil, rfl, nofun, nofun⟩

/-- There are four tasks. -/
theorem length_le_of_nodup {waiting : List Task} (h : waiting.Nodup) : waiting.length ≤ 4 := by
  have hsub : waiting ⊆ [.heartbeat, .telemetry, .faultMonitor, .commandHandler] := by
    intro t _
    cases t <;> decide
  exact h.length_le_of_subset hsub

theorem pollOuts_append (evs evs' : List FirmwareEvent) :
    pollOuts (evs ++ evs') = pollOuts evs ++ pollOuts evs' := List.filterMap_append

theorem update_locking_iff {fw : Firmware} {t : Task} {phase : TxPhase}
    (hat : ∀ frame, fw.tx t ≠ .locking frame) (hphase : ∀ frame, phase ≠ .locking frame)
    (t' : Task) (frame : List U8) :
    Function.update fw.tx t phase t' = .locking frame ↔ fw.tx t' = .locking frame := by
  by_cases ht : t' = t
  · rw [ht, Function.update_self]
    exact iff_of_false (hphase frame) (hat frame)
  · rw [Function.update_of_ne ht]

namespace TxOrder
variable {evs evs' : List FirmwareEvent} {fw fw' : Firmware} {frames : List (List U8)}
  {waiting : List Task} {t : Task} {nowMs : U32} {frame : List U8} {i : Nat}

/-- A step that no task at the mutex takes part in. -/
theorem congr (h : TxOrder evs fw frames waiting) (hsound : fw'.TxSound)
    (hlocking : ∀ t frame, fw'.tx t = .locking frame ↔ fw.tx t = .locking frame)
    (hseq : fw'.txSequence = fw.txSequence)
    (hwire : pollOuts evs' ++ fw'.remaining = pollOuts evs ++ fw.remaining) :
    TxOrder evs' fw' frames waiting := by
  refine ⟨hsound, h.sequence, hwire.trans h.wire, h.nodup, hseq.trans h.drawn, ?_, ?_⟩
  · intro i t hi
    obtain ⟨frame, hat, hnumber⟩ := h.number i t hi
    exact ⟨frame, (hlocking t frame).mpr hat, hnumber⟩
  · intro t frame hat
    exact h.waits t frame ((hlocking t frame).mp hat)

theorem not_mem_of_idle (h : TxOrder evs fw frames waiting) (hidle : fw.tx t = .idle) :
    t ∉ waiting := by
  intro hmem
  obtain ⟨i, hi⟩ := List.mem_iff_getElem?.mp hmem
  obtain ⟨frame, hat, -⟩ := h.number i t hi
  rw [hidle] at hat
  cases hat

/-- A task that draws a number goes to the end of the queue. -/
theorem call (h : TxOrder evs fw frames waiting) (hidle : fw.tx t = .idle) (hsound : fw'.TxSound)
    (htx : fw'.tx = Function.update fw.tx t (.locking frame)) (hvalid : ValidFrame frame)
    (hnumber : (SafetyFrameHeader.ofBytes frame).sequenceId = BitVec.ofNat 16 fw.txSequence)
    (hseq : fw'.txSequence = fw.txSequence + 1)
    (hwire : pollOuts evs' ++ fw'.remaining = pollOuts evs ++ fw.remaining) :
    TxOrder evs' fw' frames (waiting ++ [t]) := by
  have hnot := h.not_mem_of_idle hidle
  have hkept : ∀ t', t' ∈ waiting → fw'.tx t' = fw.tx t' := by
    intro t' hmem
    have ht : t' ≠ t := fun ht => hnot (ht ▸ hmem)
    rw [htx, Function.update_of_ne ht]
  refine ⟨hsound, h.sequence, hwire.trans h.wire, ?_, ?_, ?_, ?_⟩
  · exact List.nodup_append.mpr ⟨h.nodup, List.pairwise_singleton _ t, fun t' hmem t'' hmem'' heq =>
      hnot (List.mem_singleton.mp hmem'' ▸ heq ▸ hmem)⟩
  · rw [hseq, h.drawn, List.length_append, List.length_singleton, Nat.add_assoc]
  · intro i t' hi
    obtain hi | ⟨rfl, rfl⟩ := getElem?_concat_eq_some_iff.mp hi
    · obtain ⟨frame', hat, hheld⟩ := h.number i t' hi
      exact ⟨frame', (hkept t' (List.mem_of_getElem? hi)).trans hat, hheld⟩
    · exact ⟨frame, htx ▸ Function.update_self .., hvalid, h.drawn ▸ hnumber⟩
  · intro t' frame' hat
    by_cases ht : t' = t
    · exact List.mem_append_right _ (List.mem_singleton.mpr ht)
    · rw [htx, Function.update_of_ne ht] at hat
      exact List.mem_append_left _ (h.waits t' frame' hat)

theorem toNat_age (h : TxOrder evs fw frames waiting) (hi : waiting[i]? = some t)
    (hat : fw.tx t = .locking frame) : (fw.age frame).toNat = waiting.length - i := by
  obtain ⟨frame', hat', -, hnumber⟩ := h.number i t hi
  obtain rfl := TxPhase.locking.inj (hat.symm.trans hat')
  obtain ⟨hlt, -⟩ := List.getElem?_eq_some_iff.mp hi
  have hfour := length_le_of_nodup h.nodup
  rw [age, hnumber, h.drawn, BitVec.toNat_sub, BitVec.toNat_ofNat, BitVec.toNat_ofNat]
  omega

/-- The task that takes the mutex overtakes another one unless it is the first. -/
theorem overtakes_iff (h : TxOrder evs fw frames waiting) (hi : waiting[i]? = some t)
    (hat : fw.tx t = .locking frame) (hfree : fw.txMutex = none) :
    fw.Overtakes (.task t nowMs) ↔ i ≠ 0 := by
  have hage := h.toNat_age hi hat
  obtain ⟨hlt, -⟩ := List.getElem?_eq_some_iff.mp hi
  constructor
  · rintro ⟨-, frame', t', frame'', hat', hat'', holder⟩ rfl
    obtain rfl := TxPhase.locking.inj (hat.symm.trans hat')
    obtain ⟨j, hj⟩ := List.mem_iff_getElem?.mp (h.waits t' frame'' hat'')
    have hage' := h.toNat_age hj hat''
    have hless : (fw.age frame).toNat < (fw.age frame'').toNat := holder
    omega
  · intro hi0
    have hfirst : waiting[0]? = some (waiting.get ⟨0, by omega⟩) :=
      List.getElem?_eq_getElem _
    obtain ⟨frame', hat', -⟩ := h.number 0 _ hfirst
    have hage' := h.toNat_age hfirst hat'
    refine ⟨hfree, frame, _, frame', hat, hat', ?_⟩
    show (fw.age frame).toNat < (fw.age frame').toNat
    omega

/-- The first of the queue takes the mutex. -/
theorem lock (h : TxOrder evs fw frames (t :: waiting)) (hat : fw.tx t = .locking frame)
    (hfree : fw.txMutex = none) (htx : fw'.tx = Function.update fw.tx t (.putting frame))
    (hmutex : fw'.txMutex = some t) (hseq : fw'.txSequence = fw.txSequence)
    (hout : pollOuts evs' = pollOuts evs) : TxOrder evs' fw' (frames ++ [frame]) waiting := by
  have hsound := h.sound.lock hfree htx hmutex
  obtain ⟨hnot, hnodup⟩ := List.nodup_cons.mp h.nodup
  obtain ⟨frame', hat', hnumber⟩ := h.number 0 t rfl
  obtain rfl := TxPhase.locking.inj (hat.symm.trans hat')
  refine ⟨hsound, inSequence_concat.mpr ⟨h.sequence, hnumber⟩, ?_, hnodup, ?_, ?_, ?_⟩
  · have hwire := h.wire
    rw [remaining_of_free hfree, List.append_nil] at hwire
    rw [hsound.remaining_of_putting (htx ▸ Function.update_self ..), hout, hwire]
    simp
  · rw [hseq, h.drawn, List.length_cons, List.length_append, List.length_singleton]
    omega
  · intro i t' hi
    have ht : t' ≠ t := fun ht => hnot (ht ▸ List.mem_of_getElem? hi)
    obtain ⟨frame', hat', hheld⟩ := h.number (i + 1) t' hi
    rw [List.length_append, List.length_singleton, Nat.add_assoc, Nat.add_comm 1]
    exact ⟨frame', by rwa [htx, Function.update_of_ne ht], hheld⟩
  · intro t' frame' hat'
    by_cases ht : t' = t
    · rw [htx, ht, Function.update_self] at hat'
      cases hat'
    · rw [htx, Function.update_of_ne ht] at hat'
      exact (List.mem_cons.mp (h.waits t' frame' hat')).resolve_left ht

/-- Any other task that takes the mutex puts a wrong number on the wire. -/
theorem breach (h : TxOrder evs fw frames waiting) (hi : waiting[i]? = some t) (hpos : i ≠ 0)
    (hat : fw.tx t = .locking frame) (hfree : fw.txMutex = none)
    (htx : fw'.tx = Function.update fw.tx t (.putting frame)) (hmutex : fw'.txMutex = some t)
    (hout : pollOuts evs' = pollOuts evs) : ¬ WireInSequence evs' fw' := by
  rintro ⟨frames', hsequence, hwire⟩
  obtain ⟨frame', hat', hvalid, hnumber⟩ := h.number i t hi
  obtain rfl := TxPhase.locking.inj (hat.symm.trans hat')
  have hflat : frames'.flatten = (frames ++ [frame]).flatten := by
    have hbefore := h.wire
    rw [remaining_of_free hfree, List.append_nil] at hbefore
    rw [← hwire, (h.sound.lock hfree htx hmutex).remaining_of_putting
      (htx ▸ Function.update_self ..), hout, hbefore]
    simp
  have hframes : ∀ f ∈ frames ++ [frame], IsFrame f := by
    intro f hf
    obtain hf | hf := List.mem_append.mp hf
    · exact h.sequence.isFrame f hf
    · rw [List.mem_singleton.mp hf]
      exact hvalid.isFrame
  obtain rfl := flatten_injective incremental_host hsequence.isFrame hframes hflat
  have hwrong := hnumber.symm.trans (inSequence_concat.mp hsequence).2.2
  have hfour := length_le_of_nodup h.nodup
  obtain ⟨hlt, -⟩ := List.getElem?_eq_some_iff.mp hi
  have hmod := congrArg BitVec.toNat hwrong
  rw [BitVec.toNat_ofNat, BitVec.toNat_ofNat] at hmod
  omega

end TxOrder

/-! ### Runs -/

def Ordered (evs : List FirmwareEvent) (fw : Firmware) : Prop :=
  ∃ frames waiting, TxOrder evs fw frames waiting

variable {evs : List FirmwareEvent} {fw : Firmware} {a : FirmwareInput}

theorem Ordered.wireInSequence (h : Ordered evs fw) : WireInSequence evs fw := by
  obtain ⟨frames, waiting, h⟩ := h
  exact ⟨frames, h.sequence, h.wire⟩

theorem Ordered.step (h : Ordered evs fw) (hnot : ¬ fw.Overtakes a) :
    Ordered (evs ++ (fw.step a).2) (fw.step a).1 := by
  obtain ⟨frames, waiting, h⟩ := h
  cases a with
  | receive bytes =>
      refine ⟨frames, waiting, h.congr (h.sound.congr rfl rfl) (fun _ _ => Iff.rfl) rfl ?_⟩
      rw [Firmware.step, List.append_nil]
      rfl
  | task t nowMs =>
      have hstep := fw.run_transmits t nowMs
      have hsound := h.sound.transmits hstep
      have hevs := pollOuts_append evs (fw.run t nowMs).2
      rw [Firmware.step]
      generalize (fw.run t nowMs).1 = fw', evs ++ (fw.run t nowMs).2 = evs',
        pollOuts (fw.run t nowMs).2 = out at hstep hsound hevs ⊢
      cases hstep with
      | kept htx hmutex hseq =>
          refine ⟨frames, waiting, h.congr hsound (fun t frame => by rw [htx]) hseq ?_⟩
          rw [hevs, remaining_congr htx hmutex, List.append_nil]
      | called hidle hfits htx hmutex hseq =>
          have hrem := (h.sound.call hidle ⟨_, _, _, _, hfits, rfl⟩ htx hmutex).2
          refine ⟨frames, waiting ++ [t], h.call hidle hsound htx (validFrame_packFrame _ _ _ hfits)
            (sequenceId_packFrame ..) hseq ?_⟩
          rw [hevs, hrem, List.append_nil]
      | @locked frame hat hfree htx hmutex hseq =>
          obtain ⟨i, hi⟩ := List.mem_iff_getElem?.mp (h.waits t frame hat)
          have hfirst : i = 0 := not_not.mp fun hpos =>
            hnot ((h.overtakes_iff hi hat hfree).mpr hpos)
          rw [hfirst] at hi
          obtain ⟨waiting, rfl⟩ := List.head?_eq_some_iff.mp (List.head?_eq_getElem? ▸ hi)
          exact ⟨_, waiting, h.lock hat hfree htx hmutex hseq (hevs.trans (List.append_nil _))⟩
      | put hat htx hmutex hseq =>
          refine ⟨frames, waiting, h.congr hsound (fun t' frame => ?_) hseq ?_⟩
          · rw [htx]
            exact update_locking_iff (by simp [hat]) (by simp) t' frame
          · rw [hevs, h.sound.remaining_of_putting hat,
              hsound.remaining_of_putting (htx ▸ Function.update_self ..)]
            simp
      | unlocked hat htx hmutex hseq =>
          refine ⟨frames, waiting, h.congr hsound (fun t' frame => ?_) hseq ?_⟩
          · rw [htx]
            exact update_locking_iff (by simp [hat]) (by simp) t' frame
          · rw [hevs, h.sound.remaining_of_putting hat, remaining_of_free hmutex, List.append_nil]

theorem Ordered.breach (h : Ordered evs fw) (hover : fw.Overtakes a) :
    ¬ WireInSequence (evs ++ (fw.step a).2) (fw.step a).1 := by
  obtain ⟨frames, waiting, h⟩ := h
  cases a with
  | receive bytes => exact hover.elim
  | task t nowMs =>
      obtain ⟨hfree, frame, -, -, hat, -, -⟩ := id hover
      obtain ⟨i, hi⟩ := List.mem_iff_getElem?.mp (h.waits t frame hat)
      have hpos := (h.overtakes_iff hi hat hfree).mp hover
      have hrun : fw.run t nowMs =
          ({ fw with txMutex := some t, tx := Function.update fw.tx t (.putting frame) }, []) := by
        simp only [Firmware.run, hat, hfree, if_true]
      rw [Firmware.step, hrun]
      exact h.breach hi hpos hat hfree rfl rfl (congrArg pollOuts (List.append_nil evs))

/-- The frames on the wire count up throughout a run exactly when no task is
let in ahead of an older number. -/
theorem wire_in_sequence_iff (inputs : List FirmwareInput) :
    (∀ pre, pre <+: inputs →
      WireInSequence (Machine.outputs Firmware.step {} pre) (Machine.after Firmware.step {} pre)) ↔
    Machine.Along Firmware.step (fun fw a => ¬ fw.Overtakes a) {} inputs :=
  Machine.throughout_iff_along (I := Ordered) (fun _ _ h => h.wireInSequence)
    (fun _ _ _ h hnot => h.step hnot) (fun _ _ _ h hnot => h.breach (not_not.mp hnot))
    ⟨[], [], txOrder_init⟩ inputs

/-- The heartbeat task draws 0 and the telemetry task draws 1, which takes the
mutex first and puts its frame out; then the heartbeat follows. -/
def overtaking : List FirmwareInput :=
  List.replicate 3 (.task .heartbeat 0) ++ List.replicate 29 (.task .telemetry 0) ++
    List.replicate 26 (.task .heartbeat 0)

theorem wire_out_of_sequence :
    ¬ WireInSequence (Machine.outputs Firmware.step {} overtaking)
      (Machine.after Firmware.step {} overtaking) := by
  rintro ⟨frames, hsequence, hwire⟩
  have hfits : (telemetrySample 0 0).length ≤ safetyMaxPayload ∧
      (safetyHeartbeatPayload 0 0).length ≤ safetyMaxPayload := by decide
  have hout : pollOuts (Machine.outputs Firmware.step {} overtaking) ++
      (Machine.after Firmware.step {} overtaking).remaining =
        [packFrame safetyFrameTelemetry 1 0 (telemetrySample 0 0),
         packFrame safetyFrameHeartbeat 0 0 (safetyHeartbeatPayload 0 0)].flatten := by
    decide +kernel
  have hframes : ∀ f ∈ [packFrame safetyFrameTelemetry 1 0 (telemetrySample 0 0),
      packFrame safetyFrameHeartbeat 0 0 (safetyHeartbeatPayload 0 0)], IsFrame f := by
    exact List.forall_mem_cons.mpr ⟨isFrame_packFrame _ _ _ hfits.1,
      List.forall_mem_singleton.mpr (isFrame_packFrame _ _ _ hfits.2)⟩
  obtain rfl := flatten_injective incremental_host hsequence.isFrame hframes
    (hwire.symm.trans hout)
  have hfirst := (hsequence 0 _ rfl).2
  rw [sequenceId_packFrame] at hfirst
  exact absurd hfirst (by decide)

end Firmware

end SafetyCopro
