import SafetyCopro.Supervisor.RecoveryWorker

/-!
How a request moves through the worker. While nothing is added to the queue,
the last `RECOVER` in it is sent and reported on, and a recovery that is
followed by a `RESTORED` in the queue is never reported as failed.
-/

namespace SafetyCopro

namespace RecoveryWorker
variable {τ : Type} {p : τ → Prop}

/-- A request for which `p` holds is on its way to a report that it was sent or
that it failed: it is the last one queued, or taken up with nothing queued
behind it, or the report is being made. -/
inductive Underway (p : τ → Prop) (w : RecoveryWorker τ) : Prop
  | queued {t : τ} {ts : I64} : w.queue.getLast? = some (.recover t ts) → p t → Underway p w
  | sending {a : ActiveRecovery τ} {t : τ} {ts : I64} : w.queue = [] → w.active = some a →
      p a.seq → w.pc = .sending t ts → p t → Underway p w
  | unsent {a : ActiveRecovery τ} : w.queue = [] → w.active = some a → p a.seq →
      w.pc = .inner → Underway p w
  | reporting {rep : RecoveryReport τ} : w.pc = .reporting rep → rep.outcome ≠ .success →
      p rep.seq → Underway p w

/-- The last request queued decides how the active recovery ends: `p` holds of
the recovery that is active once the queue is empty. -/
def Settles (p : τ → Prop) (w : RecoveryWorker τ) : Prop :=
  (∃ t ts, w.queue.getLast? = some (.recover t ts) ∧ p t) ∨
    (∃ ts, w.queue.getLast? = some (.restored ts)) ∨
    (w.queue = [] ∧ ∀ a, w.active = some a → p a.seq)

theorem Settles.mono {q : τ → Prop} {w : RecoveryWorker τ} (h : ∀ t, p t → q t)
    (hw : Settles p w) : Settles q w := by
  obtain ⟨t, ts, hlast, ht⟩ | hlast | ⟨hq, hactive⟩ := hw
  · exact Or.inl ⟨t, ts, hlast, h t ht⟩
  · exact Or.inr (Or.inl hlast)
  · exact Or.inr (Or.inr ⟨hq, fun a ha => h _ (hactive a ha)⟩)

theorem getLast?_restored (rs : List I64) (t : τ) (ts : I64) :
    (rs.map (RecoveryRequest.restored (τ := τ))).getLast? ≠ some (.recover t ts) := by
  intro h
  have hmem := List.mem_of_getLast? h
  simp at hmem

theorem getLast?_rest {u rest : List (RecoveryRequest τ)} {req last : RecoveryRequest τ}
    (h : (u ++ req :: rest).getLast? = some last) :
    (rest = [] ∧ req = last) ∨ rest.getLast? = some last := by
  cases rest with
  | nil => exact Or.inl ⟨rfl, by simpa using h⟩
  | cons r rest =>
      rw [List.getLast?_append_cons, List.getLast?_cons_cons] at h
      exact Or.inr h

theorem Underway.serve {deadlineMs : U32} {w : RecoveryWorker τ} {t : τ} {ts : I64}
    (h : w.queue.getLast? = some (.recover t ts)) (ht : p t) :
    Underway p (serve deadlineMs w w.queue).1 := by
  obtain ⟨rs, -, ⟨hq, -⟩ | ⟨seq, ts', rest, hq, hserve⟩ | ⟨a, ts', rest, -, hq, hserve⟩⟩ :=
    serve_cases deadlineMs w w.queue
  · rw [hq] at h
    exact absurd h (getLast?_restored rs t ts)
  · rw [hserve]
    rw [hq] at h
    obtain ⟨rfl, hreq⟩ | hrest := getLast?_rest h
    · obtain ⟨rfl, rfl⟩ := RecoveryRequest.recover.inj hreq
      exact .sending rfl rfl ht rfl ht
    · exact .queued hrest ht
  · rw [hserve]
    rw [hq] at h
    obtain ⟨rfl, hreq⟩ | hrest := getLast?_rest (u := []) h
    · cases hreq
    · exact .queued hrest ht

theorem Underway.step {w : RecoveryWorker τ} (h : Underway p w) (deadlineMs : U32) (nowMs : Int)
    (sent : Bool) :
    Underway p (w.step deadlineMs nowMs sent).1 ∨
      ∃ rep, .reported rep ∈ (w.step deadlineMs nowMs sent).2 ∧ rep.outcome ≠ .success ∧
        p rep.seq := by
  obtain ⟨pc, -, hparked, hstep⟩ | ⟨hserving, hstep⟩ | ⟨seq, ts, hpc, hstep⟩ | ⟨rep, hpc, hstep⟩ :=
    w.step_cases deadlineMs nowMs sent <;> rw [hstep]
  · cases h with
    | queued hlast ht => exact Or.inl (.queued hlast ht)
    | sending _ _ _ hpc => exact absurd hparked (by rw [hpc]; exact id)
    | unsent _ _ _ hpc => exact absurd hparked (by rw [hpc]; exact id)
    | reporting hpc => exact absurd hparked (by rw [hpc]; exact id)
  · cases h with
    | queued hlast ht => exact Or.inl (.serve hlast ht)
    | sending _ _ _ hpc => exact absurd hserving (by simp [Serving, hpc])
    | unsent hq hactive ha hpc =>
        -- the queue is empty after the lock is taken again, so this is `FAILED`
        left
        rw [hq, RecoveryWorker.serve, checkDeadline]
        simp only [hactive, List.isEmpty_nil, if_true]
        exact .reporting rfl (by decide : RecoveryOutcome.failed ≠ .success) ha
    | reporting hpc => exact absurd hserving (by simp [Serving, hpc])
  · left
    cases h with
    | queued hlast ht => cases sent <;> exact .queued hlast ht
    | sending hq hactive ha hpc' ht =>
        obtain ⟨rfl, rfl⟩ := WorkerPc.sending.inj (hpc.symm.trans hpc')
        cases sent with
        | true => exact .reporting rfl (by decide : RecoveryOutcome.sent ≠ .success) ht
        | false => exact .unsent hq hactive ha rfl
    | unsent _ _ _ hpc' => cases hpc.symm.trans hpc'
    | reporting hpc' => cases hpc.symm.trans hpc'
  · cases h with
    | queued hlast ht => exact Or.inl (.queued hlast ht)
    | sending _ _ _ hpc' => cases hpc.symm.trans hpc'
    | unsent _ _ _ hpc' => cases hpc.symm.trans hpc'
    | reporting hpc' hout ht =>
        obtain rfl := WorkerPc.reporting.inj (hpc.symm.trans hpc')
        exact Or.inr ⟨rep, List.mem_singleton.mpr rfl, hout, ht⟩

theorem Settles.checkDeadline {w : RecoveryWorker τ} (hq : w.queue = [])
    (h : ∀ a, w.active = some a → p a.seq) :
    Settles p w.checkDeadline ∧
      ∀ rep, w.checkDeadline.pc = .reporting rep → p rep.seq := by
  rw [RecoveryWorker.checkDeadline]
  cases hactive : w.active with
  | none => exact ⟨Or.inr (Or.inr ⟨hq, fun a ha => nomatch ha⟩), fun rep hrep => nomatch hrep⟩
  | some a =>
      simp only [hq, List.isEmpty_nil, if_true]
      refine ⟨Or.inr (Or.inr ⟨rfl, fun a ha => nomatch ha⟩), fun rep hrep => ?_⟩
      obtain rfl := WorkerPc.reporting.inj hrep
      exact h a hactive

theorem Settles.serve {w : RecoveryWorker τ} (h : Settles p w) (deadlineMs : U32) :
    Settles p (serve deadlineMs w w.queue).1 ∧
      ∀ rep, (serve deadlineMs w w.queue).1.pc = .reporting rep → rep.outcome = .failed →
        p rep.seq := by
  obtain ⟨rs, hrs, ⟨hq, hserve⟩ | ⟨seq, ts, rest, hq, hserve⟩ | ⟨a, ts, rest, ha, hq, hserve⟩⟩ :=
    serve_cases deadlineMs w w.queue <;> rw [hserve]
  · have hactive : ∀ a, w.active = some a → p a.seq := by
      intro a ha
      have hnil : w.queue = [] := by rw [hq, hrs (by simp [ha])]; rfl
      obtain ⟨t, ts, hlast, -⟩ | ⟨ts, hlast⟩ | ⟨-, h⟩ := h
      · simp [hnil] at hlast
      · simp [hnil] at hlast
      · exact h a ha
    have h := Settles.checkDeadline (w := { w with queue := [] }) rfl hactive
    exact ⟨h.1, fun rep hrep _ => h.2 rep hrep⟩
  · refine ⟨?_, fun rep hrep => nomatch hrep⟩
    obtain ⟨t, ts', hlast, ht⟩ | ⟨ts', hlast⟩ | ⟨hnil, -⟩ := h
    · obtain ⟨rfl, hreq⟩ | hrest := getLast?_rest (hq ▸ hlast)
      · obtain ⟨rfl, -⟩ := RecoveryRequest.recover.inj hreq
        exact Or.inr (Or.inr ⟨rfl, fun a ha => Option.some.inj ha ▸ ht⟩)
      · exact Or.inl ⟨t, ts', hrest, ht⟩
    · obtain ⟨-, hreq⟩ | hrest := getLast?_rest (hq ▸ hlast)
      · cases hreq
      · exact Or.inr (Or.inl ⟨ts', hrest⟩)
    · simp [hnil] at hq
  · refine ⟨?_, fun rep hrep hout => ?_⟩
    · obtain ⟨t, ts', hlast, ht⟩ | ⟨ts', hlast⟩ | ⟨hnil, -⟩ := h
      · obtain ⟨-, hreq⟩ | hrest := getLast?_rest (u := []) (hq ▸ hlast)
        · cases hreq
        · exact Or.inl ⟨t, ts', hrest, ht⟩
      · obtain ⟨rfl, -⟩ | hrest := getLast?_rest (u := []) (hq ▸ hlast)
        · exact Or.inr (Or.inr ⟨rfl, fun a ha => nomatch ha⟩)
        · exact Or.inr (Or.inl ⟨ts', hrest⟩)
      · simp [hnil] at hq
    · obtain rfl := WorkerPc.reporting.inj hrep
      cases hout

/-- A step keeps the promise of the queue, and a failure it is about to report
is one of a recovery with `p`. -/
theorem Settles.step {w : RecoveryWorker τ} (h : Settles p w) (deadlineMs : U32) (nowMs : Int)
    (sent : Bool) :
    Settles p (w.step deadlineMs nowMs sent).1 ∧
      ∀ rep, (w.step deadlineMs nowMs sent).1.pc = .reporting rep → rep.outcome = .failed →
        p rep.seq := by
  obtain ⟨pc, hparked, -, hstep⟩ | ⟨-, hstep⟩ | ⟨seq, ts, -, hstep⟩ | ⟨rep, -, hstep⟩ :=
    w.step_cases deadlineMs nowMs sent <;> rw [hstep]
  · refine ⟨h, fun rep hrep => absurd hparked ?_⟩
    rw [show pc = .reporting rep from hrep]
    exact id
  · exact h.serve deadlineMs
  · cases sent with
    | true =>
        refine ⟨h, fun rep hrep hout => ?_⟩
        obtain rfl := WorkerPc.reporting.inj hrep
        cases hout
    | false => exact ⟨h, fun rep hrep => nomatch hrep⟩
  · refine ⟨h, fun rep' hrep => ?_⟩
    simp only at hrep
    split at hrep <;> cases hrep

end RecoveryWorker

end SafetyCopro
