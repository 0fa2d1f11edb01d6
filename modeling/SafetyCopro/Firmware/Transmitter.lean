import SafetyCopro.Firmware.Tasks

/-!
What the tasks put on the UART together. A task takes its number outside the
mutex and puts its frame out inside it, so the bytes on the wire are whole
frames, whatever the order the tasks run in.
-/

namespace SafetyCopro

namespace Firmware

/-! ### What a step does to the transmitter -/

/-- Everything a step of `t` can do in `safety_send_frame`, with the bytes that
go out. -/
inductive Transmits (fw : Firmware) (t : Task) (nowMs : U32) (fw' : Firmware) : List U8 → Prop
  -- outside of it, or at a mutex that another task holds
  | kept (htx : fw'.tx = fw.tx) (hmutex : fw'.txMutex = fw.txMutex)
      (hseq : fw'.txSequence = fw.txSequence) : Transmits fw t nowMs fw' []
  | called {type : U8} {payload : List U8} (hidle : fw.tx t = .idle)
      (hfits : payload.length ≤ safetyMaxPayload)
      (htx : fw'.tx = Function.update fw.tx t
        (.locking (packFrame type (BitVec.ofNat 16 fw.txSequence) nowMs payload)))
      (hmutex : fw'.txMutex = fw.txMutex) (hseq : fw'.txSequence = fw.txSequence + 1) :
      Transmits fw t nowMs fw' []
  | locked {frame : List U8} (hat : fw.tx t = .locking frame) (hfree : fw.txMutex = none)
      (htx : fw'.tx = Function.update fw.tx t (.putting frame))
      (hmutex : fw'.txMutex = some t) (hseq : fw'.txSequence = fw.txSequence) :
      Transmits fw t nowMs fw' []
  | put {b : U8} {bytes : List U8} (hat : fw.tx t = .putting (b :: bytes))
      (htx : fw'.tx = Function.update fw.tx t (.putting bytes))
      (hmutex : fw'.txMutex = fw.txMutex) (hseq : fw'.txSequence = fw.txSequence) :
      Transmits fw t nowMs fw' [b]
  | unlocked (hat : fw.tx t = .putting []) (htx : fw'.tx = Function.update fw.tx t .idle)
      (hmutex : fw'.txMutex = none) (hseq : fw'.txSequence = fw.txSequence) :
      Transmits fw t nowMs fw' []

theorem run_transmits (fw : Firmware) (t : Task) (nowMs : U32) :
    fw.Transmits t nowMs (fw.run t nowMs).1 (pollOuts (fw.run t nowMs).2) := by
  unfold Firmware.run
  cases hat : fw.tx t with
  | locking frame =>
      dsimp only
      split
      · rename_i hfree
        exact .locked hat hfree rfl rfl rfl
      · exact .kept rfl rfl rfl
  | putting bytes =>
      cases bytes with
      | nil => exact .unlocked hat rfl rfl rfl
      | cons b bytes => exact .put hat rfl rfl rfl
  | idle =>
      dsimp only
      split
      · obtain ⟨-, -, htx, hmutex, hseq⟩ := fw.turn_fields t
        exact .kept htx hmutex hseq
      · rename_i op rest hops
        have hmutex := fw.exec_txMutex t nowMs op
        have hout : pollOuts (fw.exec t nowMs op).2.2 = [] := exec_pollOut
        dsimp only
        rw [hout]
        obtain ⟨htx, hseq⟩ | ⟨type, payload, hfits, -, htx, hseq⟩ := fw.exec_tx t nowMs op
        · exact .kept htx hmutex hseq
        · exact .called hat hfits htx hmutex hseq

/-! ### Whole frames -/

def IsPacked (frame : List U8) : Prop :=
  ∃ type seq tsMs payload, payload.length ≤ safetyMaxPayload ∧
    frame = packFrame type seq tsMs payload

/-- The mutex is held by the task that puts bytes out, and by no other. -/
structure TxSound (fw : Firmware) : Prop where
  owner : ∀ t bytes, fw.tx t = .putting bytes → fw.txMutex = some t
  held : ∀ t, fw.txMutex = some t → ∃ bytes, fw.tx t = .putting bytes
  packed : ∀ t frame, fw.tx t = .locking frame → IsPacked frame

theorem txSound_init : TxSound {} := ⟨nofun, nofun, nofun⟩

/-- What the owner of the mutex still has to put out. -/
def remaining (fw : Firmware) : List U8 :=
  match fw.txMutex with
  | none => []
  | some t =>
      match fw.tx t with
      | .putting bytes => bytes
      | _ => []

theorem TxSound.congr {fw fw' : Firmware} (h : fw.TxSound) (htx : fw'.tx = fw.tx)
    (hmutex : fw'.txMutex = fw.txMutex) : fw'.TxSound := by
  obtain ⟨howner, hheld, hpacked⟩ := h
  rw [← htx, ← hmutex] at howner hheld
  rw [← htx] at hpacked
  exact ⟨howner, hheld, hpacked⟩

theorem remaining_congr {fw fw' : Firmware} (htx : fw'.tx = fw.tx)
    (hmutex : fw'.txMutex = fw.txMutex) : fw'.remaining = fw.remaining := by
  rw [remaining, remaining, htx, hmutex]

/-- One task moves on in `safety_send_frame`; the mutex may change hands with it. -/
theorem TxSound.update {fw fw' : Firmware} (h : fw.TxSound) {t : Task} {phase : TxPhase}
    (htx : fw'.tx = Function.update fw.tx t phase)
    (hother : ∀ t', t' ≠ t → (fw'.txMutex = some t' ↔ fw.txMutex = some t'))
    (hself : fw'.txMutex = some t ↔ ∃ bytes, phase = .putting bytes)
    (hpacked : ∀ frame, phase = .locking frame → IsPacked frame) : fw'.TxSound := by
  have heq : fw'.tx t = phase := by rw [htx, Function.update_self]
  have hne : ∀ t', t' ≠ t → fw'.tx t' = fw.tx t' := fun t' ht => by
    rw [htx, Function.update_of_ne ht]
  refine ⟨fun t' bytes ht' => ?_, fun t' ht' => ?_, fun t' frame ht' => ?_⟩
  · by_cases ht : t' = t
    · rw [ht] at ht' ⊢
      exact hself.mpr ⟨bytes, heq.symm.trans ht'⟩
    · rw [hne t' ht] at ht'
      exact (hother t' ht).mpr (h.owner t' bytes ht')
  · by_cases ht : t' = t
    · rw [ht] at ht' ⊢
      rw [heq]
      exact hself.mp ht'
    · rw [hne t' ht]
      exact h.held t' ((hother t' ht).mp ht')
  · by_cases ht : t' = t
    · rw [ht, heq] at ht'
      exact hpacked frame ht'
    · rw [hne t' ht] at ht'
      exact h.packed t' frame ht'

theorem TxSound.remaining_of_putting {fw : Firmware} (h : fw.TxSound) {t : Task}
    {bytes : List U8} (htx : fw.tx t = .putting bytes) : fw.remaining = bytes := by
  simp only [remaining, h.owner t bytes htx, htx]

theorem TxSound.not_owner_of_idle {fw : Firmware} (h : fw.TxSound) {t : Task}
    (hidle : fw.tx t = .idle) : fw.txMutex ≠ some t := by
  intro howner
  obtain ⟨bytes, hbytes⟩ := h.held t howner
  rw [hidle] at hbytes
  cases hbytes

theorem remaining_of_free {fw : Firmware} (hfree : fw.txMutex = none) :
    fw.remaining = [] := by
  rw [remaining, hfree]

variable {fw fw' : Firmware} {t : Task} {nowMs : U32} {out : List U8}

theorem TxSound.call (h : fw.TxSound) (hidle : fw.tx t = .idle)
    {frame : List U8} (hframe : IsPacked frame)
    (htx : fw'.tx = Function.update fw.tx t (.locking frame))
    (hmutex : fw'.txMutex = fw.txMutex) : fw'.TxSound ∧ fw'.remaining = fw.remaining := by
  have hnot := h.not_owner_of_idle hidle
  constructor
  · refine h.update htx (fun t' _ => by rw [hmutex]) ?_ ?_
    · rw [hmutex]
      exact iff_of_false hnot nofun
    · intro frame' hframe'
      obtain rfl := TxPhase.locking.inj hframe'
      exact hframe
  · rw [remaining, remaining, hmutex, htx]
    cases howner : fw.txMutex with
    | none => rfl
    | some t' =>
        have ht : t' ≠ t := fun ht => hnot (howner.trans (congrArg some ht))
        dsimp only
        rw [Function.update_of_ne ht]

theorem TxSound.lock (h : fw.TxSound) {frame : List U8} (hfree : fw.txMutex = none)
    (htx : fw'.tx = Function.update fw.tx t (.putting frame)) (hmutex : fw'.txMutex = some t) :
    fw'.TxSound := by
  refine h.update htx (fun t' ht => ?_) (iff_of_true hmutex ⟨frame, rfl⟩) nofun
  rw [hfree, hmutex]
  exact iff_of_false (fun h => ht (Option.some.inj h).symm) nofun

theorem TxSound.put (h : fw.TxSound) {bytes bytes' : List U8} (hat : fw.tx t = .putting bytes)
    (htx : fw'.tx = Function.update fw.tx t (.putting bytes'))
    (hmutex : fw'.txMutex = fw.txMutex) : fw'.TxSound := by
  refine h.update htx (fun t' _ => by rw [hmutex]) ?_ nofun
  rw [hmutex]
  exact iff_of_true (h.owner t bytes hat) ⟨bytes', rfl⟩

theorem TxSound.unlock (h : fw.TxSound) {bytes : List U8} (hat : fw.tx t = .putting bytes)
    (htx : fw'.tx = Function.update fw.tx t .idle) (hmutex : fw'.txMutex = none) :
    fw'.TxSound := by
  refine h.update htx (fun t' ht => ?_) ?_ nofun
  · rw [hmutex, h.owner t bytes hat]
    exact iff_of_false nofun fun h => ht (Option.some.inj h).symm
  · rw [hmutex]
    exact iff_of_false nofun nofun

theorem TxSound.transmits (h : fw.TxSound) (hstep : fw.Transmits t nowMs fw' out) :
    fw'.TxSound := by
  cases hstep with
  | kept htx hmutex hseq => exact h.congr htx hmutex
  | called hidle hfits htx hmutex hseq =>
      exact (h.call hidle ⟨_, _, _, _, hfits, rfl⟩ htx hmutex).1
  | locked hat hfree htx hmutex hseq => exact h.lock hfree htx hmutex
  | put hat htx hmutex hseq => exact h.put hat htx hmutex
  | unlocked hat htx hmutex hseq => exact h.unlock hat htx hmutex

/-- Over a step of a task, what went out and what is left is what was left, and
perhaps one more frame. -/
theorem TxSound.run (h : fw.TxSound) (t : Task) (nowMs : U32) :
    (fw.run t nowMs).1.TxSound ∧
      ∃ new, (new = [] ∨ IsPacked new) ∧
        pollOuts (fw.run t nowMs).2 ++ (fw.run t nowMs).1.remaining = fw.remaining ++ new := by
  have hstep := fw.run_transmits t nowMs
  have hsound := h.transmits hstep
  refine ⟨hsound, ?_⟩
  generalize (fw.run t nowMs).1 = fw', pollOuts (fw.run t nowMs).2 = out at hstep hsound ⊢
  cases hstep with
  | kept htx hmutex hseq =>
      refine ⟨[], Or.inl rfl, ?_⟩
      rw [List.append_nil]
      exact remaining_congr htx hmutex
  | called hidle hfits htx hmutex hseq =>
      refine ⟨[], Or.inl rfl, ?_⟩
      rw [List.append_nil]
      exact (h.call hidle ⟨_, _, _, _, hfits, rfl⟩ htx hmutex).2
  | @locked frame hat hfree htx hmutex hseq =>
      refine ⟨frame, Or.inr (h.packed t frame hat), ?_⟩
      rw [hsound.remaining_of_putting (htx ▸ Function.update_self ..), remaining_of_free hfree]
  | put hat htx hmutex hseq =>
      refine ⟨[], Or.inl rfl, ?_⟩
      rw [hsound.remaining_of_putting (htx ▸ Function.update_self ..),
        h.remaining_of_putting hat, List.append_nil]
      rfl
  | unlocked hat htx hmutex hseq =>
      refine ⟨[], Or.inl rfl, ?_⟩
      rw [remaining_of_free hmutex, h.remaining_of_putting hat]

end Firmware

end SafetyCopro
