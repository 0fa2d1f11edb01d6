import SafetyCopro.Supervisor.EventLoop

/-!
Runs of the event loop from its start, over every order of frames, timer
expiries and recovery reports. A run remembers exactly the keys of the valid
frames it read, and a terminal state is never left.
-/

namespace SafetyCopro

namespace EventLoop

def run (ins : List LiveInput) : EventLoop := Machine.after step {} ins

theorem run_append (ins post : List LiveInput) :
    run (ins ++ post) = Machine.after step (run ins) post :=
  Machine.after_append step _ _ _

theorem run_snoc (ins : List LiveInput) (i : LiveInput) :
    run (ins ++ [i]) = (step (run ins) i).1 :=
  run_append ins [i]

theorem mem_after_seen (el : EventLoop) (ins : List LiveInput) (k : U8 × U16) :
    k ∈ (Machine.after step el ins).dup.seen ↔
      k ∈ el.dup.seen ∨ ∃ f, LiveInput.frame f ∈ ins ∧ f.ok ∧ k = f.key := by
  induction ins generalizing el with
  | nil => simp
  | cons i ins ih =>
      simp only [Machine.after_cons, ih, mem_step_seen, List.mem_cons, or_assoc]
      refine or_congr_right ⟨fun h => ?_, fun h => ?_⟩
      · obtain ⟨f, hi, hf⟩ | ⟨f, hf, hok⟩ := h
        · exact ⟨f, Or.inl hi.symm, hf⟩
        · exact ⟨f, Or.inr hf, hok⟩
      · obtain ⟨f, hi | hf, hok⟩ := h
        · exact Or.inl ⟨f, hi.symm, hok⟩
        · exact Or.inr ⟨f, hf, hok⟩

theorem mem_run_seen (ins : List LiveInput) (k : U8 × U16) :
    k ∈ (run ins).dup.seen ↔ ∃ f, LiveInput.frame f ∈ ins ∧ f.ok ∧ k = f.key := by
  rw [run, mem_after_seen]
  exact or_iff_right List.not_mem_nil

/-! ### Terminal states -/

theorem step_fsm_of_terminal {el : EventLoop} (h : el.fsm.Terminal) (i : LiveInput) :
    (el.step i).1.fsm = el.fsm := by
  rw [step_fsm]
  cases el.stepEvent i with
  | none => rfl
  | some e => exact HealthState.target_of_terminal h e

theorem after_fsm_of_terminal {el : EventLoop} (h : el.fsm.Terminal) (ins : List LiveInput) :
    (Machine.after step el ins).fsm = el.fsm := by
  refine Machine.after_invariant (P := fun s : EventLoop => s.fsm = el.fsm)
    (fun s i hs => ?_) rfl ins
  rw [step_fsm_of_terminal (hs.symm ▸ h), hs]

end EventLoop

/-! ### Critical faults -/

/-- A `FAULT_EVENT` that carries a whole payload of severity 2 or more. -/
def ParsedFrame.IsCriticalFault (f : ParsedFrame) : Prop :=
  f.type = safetyFrameFaultEvent ∧ 8 ≤ f.payload.length ∧ 2 ≤ byteAt f.payload 1

theorem frameEvent_of_isCriticalFault {f : ParsedFrame} (h : f.IsCriticalFault)
    (s : HealthState) : frameEvent s f = some .criticalFault := by
  obtain ⟨htype, hlen, hsev⟩ := h
  have hne : f.type ≠ safetyFrameHeartbeat := by
    rw [htype]
    decide
  have hcritical : 2 ≤ f.severity := by
    rw [ParsedFrame.severity, if_pos hlen]
    exact hsev
  rw [frameEvent, if_neg hne, if_pos htype, if_pos hcritical]

namespace EventLoop

/-- From the frame `f` on, read after the run `ins`, the machine has stopped:
in `SAFE_MODE`, or in `FAILED` if it was there before. -/
def StopsAt (ins : List LiveInput) (f : ParsedFrame) : Prop :=
  ∀ post, (run (ins ++ .frame f :: post)).fsm = .safeMode ∨
    (run (ins ++ .frame f :: post)).fsm = .failed ∧ (run ins).fsm = .failed

/-- An accepted critical fault stops the machine unless it is `RECOVERING`. -/
theorem stopsAt_iff_not_recovering {ins : List LiveInput} {f : ParsedFrame}
    (hboot : (run ins).fsm ≠ .booting) (hacc : (run ins).Accepts f) (hf : f.IsCriticalFault) :
    StopsAt ins f ↔ (run ins).fsm ≠ .recovering := by
  have hstep : (step (run ins) (.frame f)).1.fsm = (run ins).fsm.target .criticalFault := by
    rw [step_fsm, stepEvent, if_pos hacc, frameEvent_of_isCriticalFault hf]
    rfl
  refine ⟨fun hstop hrec => ?_, fun hrec post => ?_⟩
  · have hnow := hstop []
    rw [run_snoc, hstep, hrec] at hnow
    exact absurd hnow (by decide)
  · have hterminal : (step (run ins) (.frame f)).1.fsm.Terminal := by
      rw [hstep]
      exact (HealthState.target_criticalFault_terminal_iff hboot).mpr hrec
    have hrun : (run (ins ++ .frame f :: post)).fsm = (run ins).fsm.target .criticalFault := by
      rw [run_append, Machine.after_cons, after_fsm_of_terminal hterminal, hstep]
    rw [hrun]
    -- the table, row by row
    cases h : (run ins).fsm with
    | booting => exact absurd h hboot
    | healthy => exact Or.inl rfl
    | degraded => exact Or.inl rfl
    | recovering => exact absurd h hrec
    | failed => exact Or.inr ⟨rfl, rfl⟩
    | safeMode => exact Or.inl rfl

/-! Frames for the runs below. -/

def heartbeatAt (seq : U16) (tsMs : U32) : ParsedFrame :=
  .packed safetyFrameHeartbeat seq tsMs (safetyHeartbeatPayload tsMs (seq.setWidth 32))

def faultAt (seq : U16) (tsMs : U32) (severity : U8) : ParsedFrame :=
  .packed safetyFrameFaultEvent seq tsMs
    (safetyFaultEventPayload safetyFaultCritical severity 3 tsMs)

theorem stopsAt_healthy :
    StopsAt [.frame (heartbeatAt 0 100)] (faultAt 1 200 2) :=
  (stopsAt_iff_not_recovering (by decide) (by decide) ⟨rfl, by decide, by decide⟩).mpr
    (by decide)

/-- A heartbeat, a timeout and the report that the command was sent lead to
`RECOVERING`. The critical fault is ignored there, and the next heartbeat
makes the machine `HEALTHY`. -/
theorem not_stopsAt_recovering :
    (run [.frame (heartbeatAt 0 100), .heartbeatTimeout 450,
        .report ⟨.sent, 1, 450⟩]).Accepts (faultAt 1 460 2) ∧
    (faultAt 1 460 2).IsCriticalFault ∧
    (run [.frame (heartbeatAt 0 100), .heartbeatTimeout 450, .report ⟨.sent, 1, 450⟩,
        .frame (faultAt 1 460 2), .frame (heartbeatAt 2 500)]).fsm = .healthy ∧
    ¬ StopsAt [.frame (heartbeatAt 0 100), .heartbeatTimeout 450, .report ⟨.sent, 1, 450⟩]
        (faultAt 1 460 2) := by
  refine ⟨by decide, ⟨rfl, by decide, by decide⟩, by decide, fun h => ?_⟩
  exact absurd (h [.frame (heartbeatAt 2 500)]) (by decide)

end EventLoop

end SafetyCopro
