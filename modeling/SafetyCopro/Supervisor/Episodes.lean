import SafetyCopro.Supervisor.Live
import SafetyCopro.Supervisor.RecoveryProgress

/-!
Recovery episodes. An episode begins when the machine goes from `HEALTHY` to
`DEGRADED`. This file follows the request made for an episode through the
worker's queue, the worker and the report queue, over every interleaving of
the event loop with the worker.
-/

namespace SafetyCopro

namespace Traced

/-- A frame that degrades the machine: a fault event that is not critical, read
while `HEALTHY`. No recovery is requested for it. -/
def SilentDegrade (s : Traced) (f : ParsedFrame) : Prop :=
  s.loop.Accepts f ∧ f.type = safetyFrameFaultEvent ∧ ¬ 2 ≤ f.severity ∧ s.loop.fsm = .healthy

instance (s : Traced) (f : ParsedFrame) : Decidable (s.SilentDegrade f) :=
  inferInstanceAs (Decidable (_ ∧ _ ∧ _ ∧ _))

def Quiet (before now : HealthState) : Prop :=
  now = before ∨ (before = .booting ∧ now = .healthy) ∨ now = .safeMode

theorem onHeartbeat_cases (s : Traced) (el : EventLoop) (f : ParsedFrame) :
    (el.fsm = .recovering ∧ ∃ loop, loop.fsm = .healthy ∧
        (s.carry (el.onHeartbeat f)).1 =
          { s with loop := loop, worker := s.worker.notifyHeartbeatRestored f.ts }) ∨
      (∃ loop, Quiet el.fsm loop.fsm ∧
        (s.carry (el.onHeartbeat f)).1 = { s with loop := loop }) := by
  obtain ⟨fsm, dup, txSeq⟩ := el
  cases fsm with
  | booting => exact Or.inr ⟨⟨.healthy, dup, txSeq + 1⟩, Or.inr (Or.inl ⟨rfl, rfl⟩), rfl⟩
  | healthy => exact Or.inr ⟨⟨.healthy, dup, txSeq + 1⟩, Or.inl rfl, rfl⟩
  | degraded => exact Or.inr ⟨⟨.degraded, dup, txSeq + 1⟩, Or.inl rfl, rfl⟩
  | recovering => exact Or.inl ⟨rfl, ⟨.healthy, dup, txSeq + 1⟩, rfl, rfl⟩
  | failed => exact Or.inr ⟨⟨.failed, dup, txSeq + 1⟩, Or.inl rfl, rfl⟩
  | safeMode => exact Or.inr ⟨⟨.safeMode, dup, txSeq + 1⟩, Or.inl rfl, rfl⟩

theorem onFaultEvent_cases (s : Traced) (el : EventLoop) (f : ParsedFrame) :
    ((¬ 2 ≤ f.severity ∧ el.fsm = .healthy) ∧ ∃ loop, loop.fsm = .degraded ∧
        (s.carry (el.onFaultEvent f)).1 =
          { s with loop := loop, episode := s.episode + 1, requested := none }) ∨
      (¬ (¬ 2 ≤ f.severity ∧ el.fsm = .healthy) ∧ ∃ loop, Quiet el.fsm loop.fsm ∧
        (s.carry (el.onFaultEvent f)).1 = { s with loop := loop }) := by
  obtain ⟨fsm, dup, txSeq⟩ := el
  rw [EventLoop.onFaultEvent]
  split
  · rename_i hsev
    refine Or.inr ⟨fun h => h.1 hsev, ?_⟩
    cases fsm with
    | booting => exact ⟨⟨.booting, dup, txSeq⟩, Or.inl rfl, rfl⟩
    | healthy => exact ⟨⟨.safeMode, dup, txSeq⟩, Or.inr (Or.inr rfl), rfl⟩
    | degraded => exact ⟨⟨.safeMode, dup, txSeq⟩, Or.inr (Or.inr rfl), rfl⟩
    | recovering => exact ⟨⟨.recovering, dup, txSeq⟩, Or.inl rfl, rfl⟩
    | failed => exact ⟨⟨.failed, dup, txSeq⟩, Or.inl rfl, rfl⟩
    | safeMode => exact ⟨⟨.safeMode, dup, txSeq⟩, Or.inl rfl, rfl⟩
  · rename_i hsev
    split
    · rename_i hfsm
      obtain rfl : fsm = .healthy := hfsm
      exact Or.inl ⟨⟨hsev, rfl⟩, ⟨.degraded, dup, txSeq⟩, rfl, rfl⟩
    · rename_i hfsm
      exact Or.inr ⟨fun h => hfsm h.2, ⟨fsm, dup, txSeq⟩, Or.inl rfl, rfl⟩

theorem frame_cases (deadlineMs : U32) (s : Traced) (f : ParsedFrame) :
    (s.SilentDegrade f ∧ ∃ loop, loop.fsm = .degraded ∧ (s.step deadlineMs (.frame f)).1 =
        { s with loop := loop, episode := s.episode + 1, requested := none }) ∨
      (s.loop.fsm = .recovering ∧ ∃ loop, loop.fsm = .healthy ∧
        (s.step deadlineMs (.frame f)).1 =
          { s with loop := loop, worker := s.worker.notifyHeartbeatRestored f.ts }) ∨
      (¬ s.SilentDegrade f ∧ ∃ loop, Quiet s.loop.fsm loop.fsm ∧
        (s.step deadlineMs (.frame f)).1 = { s with loop := loop }) := by
  obtain hok | ⟨hok, hseen⟩ | hacc := s.loop.frame_cases f
  · refine Or.inr (Or.inr ⟨fun h => hok h.1.1, (s.loop.rejectFrame f).1, Or.inl rfl, ?_⟩)
    rw [step, EventLoop.processFrame_of_not_ok hok]
    rfl
  · refine Or.inr (Or.inr ⟨fun h => h.1.2 hseen, s.loop, Or.inl rfl, ?_⟩)
    rw [step, EventLoop.processFrame_of_seen hok hseen]
    rfl
  · -- the log entry in front changes nothing
    have hstep : (s.step deadlineMs (.frame f)).1 =
        (s.carry ((s.loop.record f).dispatch f)).1 := by
      rw [step, EventLoop.processFrame_of_accepts hacc]
      rfl
    rw [hstep, EventLoop.dispatch]
    split
    · rename_i htype
      have hnot : ¬ s.SilentDegrade f := fun h => absurd (htype.symm.trans h.2.1) (by decide)
      obtain h | h := s.onHeartbeat_cases (s.loop.record f) f
      · exact Or.inr (Or.inl h)
      · exact Or.inr (Or.inr ⟨hnot, h⟩)
    split
    · rename_i htype
      obtain ⟨⟨hsev, hfsm⟩, h⟩ | ⟨hnot, h⟩ := s.onFaultEvent_cases (s.loop.record f) f
      · exact Or.inl ⟨⟨hacc, htype, hsev, hfsm⟩, h⟩
      · exact Or.inr (Or.inr ⟨fun h => hnot h.2.2, h⟩)
    · rename_i htype
      exact Or.inr (Or.inr ⟨fun h => htype h.2.1, s.loop.record f, Or.inl rfl, rfl⟩)

theorem heartbeatTimeout_cases (deadlineMs : U32) (s : Traced) (nowMs : I64) :
    (s.loop.fsm = .healthy ∧ ∃ loop seq, loop.fsm = .degraded ∧
        (s.step deadlineMs (.heartbeatTimeout nowMs)).1 =
          { s with
            loop := loop
            worker := s.worker.requestRecovery ⟨seq, s.episode + 1⟩ nowMs
            episode := s.episode + 1
            requested := some seq }) ∨
      (s.loop.fsm ≠ .healthy ∧ ∃ loop, loop.fsm = s.loop.fsm ∧
        (s.step deadlineMs (.heartbeatTimeout nowMs)).1 = { s with loop := loop }) := by
  obtain ⟨⟨fsm, dup, txSeq⟩, worker, reports, episode, requested⟩ := s
  cases fsm with
  | healthy => exact Or.inl ⟨rfl, ⟨.degraded, dup, txSeq + 1⟩, txSeq, rfl, rfl⟩
  | booting => exact Or.inr ⟨nofun, ⟨.booting, dup, txSeq⟩, rfl, rfl⟩
  | degraded => exact Or.inr ⟨nofun, ⟨.degraded, dup, txSeq⟩, rfl, rfl⟩
  | recovering => exact Or.inr ⟨nofun, ⟨.recovering, dup, txSeq⟩, rfl, rfl⟩
  | failed => exact Or.inr ⟨nofun, ⟨.failed, dup, txSeq⟩, rfl, rfl⟩
  | safeMode => exact Or.inr ⟨nofun, ⟨.safeMode, dup, txSeq⟩, rfl, rfl⟩

/-! ### Draining -/

def Drained (before now : HealthState) : Prop :=
  now = before ∨ (before = .degraded ∧ now = .recovering) ∨
    ((before = .degraded ∨ before = .recovering) ∧ now = .failed)

instance (before now : HealthState) : Decidable (Drained before now) :=
  inferInstanceAs (Decidable (_ ∨ _ ∨ _))

theorem Drained.trans {s s' s'' : HealthState} (h : Drained s s') (h' : Drained s' s'') :
    Drained s s'' := by
  unfold Drained at *
  grind

theorem Drained.idle_of {before now : HealthState} (h : Drained before now)
    (hnow : now = .booting ∨ now = .healthy) : before = .booting ∨ before = .healthy := by
  unfold Drained at h
  grind

theorem Drained.busy_of {before now : HealthState} (h : Drained before now)
    (hnow : now = .degraded ∨ now = .recovering) :
    before = .degraded ∨ before = .recovering := by
  unfold Drained at h
  grind

theorem drainReport_drained (el : EventLoop) (rep : RecoveryReport U16) :
    Drained el.fsm (el.drainReport rep).1.fsm := by
  have hsent : ∀ s : HealthState, Drained s (s.target .recoverySent) := by
    intro s
    cases s <;> decide
  have hfailed : ∀ s : HealthState, Drained s (s.target .recoveryFailed) := by
    intro s
    cases s <;> decide
  cases h : rep.outcome <;> simp only [EventLoop.drainReport, h]
  · exact hsent el.fsm
  · exact Or.inl rfl
  · exact hfailed el.fsm

theorem drained_after (el : EventLoop) (reps : List (RecoveryReport U16)) :
    Drained el.fsm (Machine.after EventLoop.drainReport el reps).fsm :=
  Machine.after_invariant (P := fun el' : EventLoop => Drained el.fsm el'.fsm)
    (fun el' rep h => h.trans (drainReport_drained el' rep)) (Or.inl rfl) reps

/-- A machine that is `DEGRADED` after reports were drained saw none of a
command sent or of a recovery failed. -/
theorem success_of_degraded_after {el : EventLoop} {reps : List (RecoveryReport U16)}
    (h : (Machine.after EventLoop.drainReport el reps).fsm = .degraded) :
    el.fsm = .degraded ∧ ∀ rep ∈ reps, rep.outcome = .success := by
  induction reps generalizing el with
  | nil => exact ⟨h, nofun⟩
  | cons rep reps ih =>
      obtain ⟨hfsm, hreps⟩ := ih h
      have hrep : el.fsm = .degraded ∧ rep.outcome = .success := by
        obtain ⟨outcome, seq, ts⟩ := rep
        obtain ⟨fsm, dup, txSeq⟩ := el
        cases outcome <;> cases fsm <;> first | exact ⟨rfl, rfl⟩ | cases hfsm
      exact ⟨hrep.1, List.forall_mem_cons.mpr ⟨hrep.2, hreps⟩⟩

theorem drain_eq (deadlineMs : U32) (s : Traced) :
    (s.step deadlineMs .drain).1 =
      { s with
        loop := Machine.after EventLoop.drainReport s.loop
          (s.reports.map (RecoveryReport.map Ticket.seq))
        reports := [] } := by
  have hfold : ∀ (reps : List (RecoveryReport U16)) (el : EventLoop) (s : Traced),
      (Machine.outputs EventLoop.drainReport el reps).foldl perform s = s := by
    intro reps
    induction reps with
    | nil => intro el s; rfl
    | cons rep reps ih =>
        intro el s
        have hrep : (el.drainReport rep).2.foldl perform s = s := by
          obtain ⟨outcome, seq, ts⟩ := rep
          obtain ⟨fsm, dup, txSeq⟩ := el
          cases outcome <;> cases fsm <;> rfl
        rw [Machine.outputs_cons, List.foldl_append, hrep, ih]
  exact hfold _ _ _

/-! ### Outstanding requests -/

/-- The request is in the queue, with the worker, or in a report not drained. -/
def Holds (s : Traced) (t : Ticket) : Prop :=
  t ∈ s.worker.tickets ∨ ∃ rep ∈ s.reports, rep.seq = t

/-- A recovery for this episode is on its way. -/
def Outstanding (s : Traced) : Prop := ∃ t, s.Holds t ∧ t.episode = s.episode

def Covered (s : Traced) : Prop := s.loop.fsm = .degraded → s.Outstanding

/-- A recovery was requested for the degradation the machine is in. -/
def Requested (s : Traced) : Prop := s.loop.fsm = .degraded → s.requested ≠ none

def TicketsOld (s : Traced) : Prop := ∀ t, s.Holds t → t.episode ≤ s.episode

theorem TicketsOld.step {s : Traced} (h : s.TicketsOld) (deadlineMs : U32) (a : LiveAction) :
    (s.step deadlineMs a).1.TicketsOld := by
  cases a with
  | frame f =>
      obtain ⟨-, loop, -, heq⟩ | ⟨-, loop, -, heq⟩ | ⟨-, loop, -, heq⟩ :=
        s.frame_cases deadlineMs f <;> rw [heq]
      · exact fun t ht => Nat.le_succ_of_le (h t ht)
      · intro t ht
        rw [Holds, RecoveryWorker.tickets_notifyHeartbeatRestored] at ht
        exact h t ht
      · exact h
  | heartbeatTimeout nowMs =>
      obtain ⟨-, loop, seq, -, heq⟩ | ⟨-, loop, -, heq⟩ :=
        s.heartbeatTimeout_cases deadlineMs nowMs <;> rw [heq]
      · intro t ht
        rw [Holds, RecoveryWorker.mem_tickets_requestRecovery] at ht
        obtain (ht | rfl) | ht := ht
        · exact Nat.le_succ_of_le (h t (Or.inl ht))
        · exact Nat.le_refl _
        · exact Nat.le_succ_of_le (h t (Or.inr ht))
      · exact h
  | worker nowMs sent =>
      intro t ht
      refine h t ?_
      obtain ht | ⟨rep, hrep, rfl⟩ := ht
      · exact Or.inl (RecoveryWorker.mem_tickets_step (Or.inl ht))
      · obtain hrep | hrep := List.mem_append.mp hrep
        · exact Or.inr ⟨rep, hrep, rfl⟩
        · have hrep := WorkerEvent.mem_filterMap_report.mp hrep
          exact Or.inl (RecoveryWorker.mem_tickets_step (Or.inr ⟨rep, hrep, rfl⟩))
  | drain =>
      rw [drain_eq]
      exact fun t ht => h t (Or.inl (ht.elim id fun ⟨rep, hrep, _⟩ => nomatch hrep))

theorem Underway.outstanding {s : Traced}
    (h : s.worker.Underway fun t => t.episode = s.episode) : s.Outstanding := by
  cases h with
  | queued hlast ht =>
      have hmem := List.mem_of_getLast? hlast
      exact ⟨_, Or.inl (RecoveryWorker.mem_tickets.mpr (Or.inl ⟨_, hmem⟩)), ht⟩
  | sending _ hactive ha =>
      exact ⟨_, Or.inl (RecoveryWorker.mem_tickets.mpr (Or.inr (Or.inl ⟨_, hactive, rfl⟩))), ha⟩
  | unsent _ hactive ha =>
      exact ⟨_, Or.inl (RecoveryWorker.mem_tickets.mpr (Or.inr (Or.inl ⟨_, hactive, rfl⟩))), ha⟩
  | reporting hpc _ ht =>
      have hticket : s.worker.pc.ticket = some _ := congrArg WorkerPc.ticket hpc
      exact ⟨_, Or.inl (RecoveryWorker.mem_tickets.mpr (Or.inr (Or.inr hticket))), ht⟩

/-- While the machine is degraded, a report that moves it on is on its way. -/
def Followed (s : Traced) : Prop :=
  s.loop.fsm = .degraded → s.requested ≠ none ∧
    (s.worker.Underway (fun t => t.episode = s.episode) ∨
      ∃ rep ∈ s.reports, rep.outcome ≠ .success ∧ rep.seq.episode = s.episode)

theorem Followed.covered {s : Traced} (h : s.Followed) : s.Covered := by
  intro hfsm
  obtain ⟨-, hway | ⟨rep, hrep, -, hep⟩⟩ := h hfsm
  · exact Underway.outstanding hway
  · exact ⟨rep.seq, Or.inr ⟨rep, hrep, rfl⟩, hep⟩

def Silent (s : Traced) : LiveAction → Prop
  | .frame f => s.SilentDegrade f
  | _ => False

instance (s : Traced) : (a : LiveAction) → Decidable (s.Silent a)
  | .frame f => inferInstanceAs (Decidable (s.SilentDegrade f))
  | .heartbeatTimeout _ | .worker .. | .drain => instDecidableFalse

theorem Followed.step {s : Traced} (h : s.Followed) {deadlineMs : U32} {a : LiveAction}
    (ha : ¬ s.Silent a) : (s.step deadlineMs a).1.Followed := by
  cases a with
  | frame f =>
      obtain ⟨hsilent, -⟩ | ⟨-, loop, hfsm, heq⟩ | ⟨-, loop, hquiet, heq⟩ :=
        s.frame_cases deadlineMs f
      · exact absurd hsilent ha
      · rw [heq]
        intro hdegraded
        cases hfsm.symm.trans hdegraded
      · rw [heq]
        intro hdegraded
        obtain hsame | ⟨-, hnow⟩ | hnow := hquiet
        · exact h (hsame.symm.trans hdegraded)
        · cases hnow.symm.trans hdegraded
        · cases hnow.symm.trans hdegraded
  | heartbeatTimeout nowMs =>
      obtain ⟨-, loop, seq, -, heq⟩ | ⟨-, loop, hsame, heq⟩ :=
        s.heartbeatTimeout_cases deadlineMs nowMs <;> rw [heq]
      · -- the new episode comes with its request, at the end of the queue
        intro _
        exact ⟨nofun, Or.inl (.queued (t := ⟨seq, s.episode + 1⟩) List.getLast?_concat rfl)⟩
      · exact fun hdegraded => h (hsame.symm.trans hdegraded)
  | worker nowMs sent =>
      intro hdegraded
      obtain ⟨hreq, hway | ⟨rep, hrep, hout⟩⟩ := h hdegraded
      · refine ⟨hreq, ?_⟩
        obtain hway | ⟨rep, hrep, hout⟩ := hway.step deadlineMs nowMs sent
        · exact Or.inl hway
        · refine Or.inr ⟨rep, List.mem_append_right _ ?_, hout⟩
          exact WorkerEvent.mem_filterMap_report.mpr hrep
      · exact ⟨hreq, Or.inr ⟨rep, List.mem_append_left _ hrep, hout⟩⟩
  | drain =>
      rw [drain_eq]
      intro hdegraded
      obtain ⟨hfsm, hsuccess⟩ := success_of_degraded_after hdegraded
      obtain ⟨hreq, hway | ⟨rep, hrep, hout, -⟩⟩ := h hfsm
      · exact ⟨hreq, Or.inl hway⟩
      · exact absurd (hsuccess _ (List.mem_map_of_mem hrep)) hout

theorem silent_step {s : Traced} (h : s.TicketsOld) {deadlineMs : U32} {a : LiveAction}
    (ha : s.Silent a) :
    ¬ (s.step deadlineMs a).1.Covered ∧ ¬ (s.step deadlineMs a).1.Requested := by
  cases a with
  | frame f =>
      obtain ⟨-, loop, hfsm, heq⟩ | ⟨hfsm, -⟩ | ⟨hnot, -⟩ := s.frame_cases deadlineMs f
      · rw [heq]
        refine ⟨fun hcovered => ?_, fun hrequested => hrequested hfsm rfl⟩
        obtain ⟨t, ht, hep⟩ := hcovered hfsm
        have hold : t.episode ≤ s.episode := h t ht
        simp only at hep
        omega
      · cases ha.2.2.2.symm.trans hfsm
      · exact absurd ha hnot
  | _ => exact ha.elim

/-- A property that follows from the invariant, and that a silent degradation
breaks, holds throughout a run exactly when there is none. -/
theorem always_iff_no_silent {P : Traced → Prop} (hgood : ∀ s : Traced, s.Followed → P s)
    (hbad : ∀ (deadlineMs : U32) (s : Traced) (a : LiveAction), s.TicketsOld → s.Silent a →
      ¬ P (s.step deadlineMs a).1) (deadlineMs : U32) (acts : List LiveAction) :
    Machine.Always (step deadlineMs) P {} acts ↔
      Machine.Along (step deadlineMs) (fun s a => ¬ s.Silent a) {} acts := by
  refine ⟨fun h => ?_, fun h => ?_⟩
  · have hold : TicketsOld {} := by
      rintro t (ht | ⟨rep, hrep, -⟩)
      · cases ht
      · cases hrep
    generalize ({} : Traced) = s at h hold
    induction acts generalizing s with
    | nil => trivial
    | cons a acts ih =>
        refine ⟨fun hsilent => ?_, ih _ h.2 (hold.step deadlineMs a)⟩
        exact hbad deadlineMs s a hold hsilent h.2.head
  · have hstart : Followed {} := nofun
    have hall := Machine.always_of_along (P := Followed)
      (fun s a hs ha => hs.step ha) hstart h
    exact hall.imp hgood

/-- In a run of the supervisor, every degraded state has its recovery
outstanding exactly when no fault event degraded the machine silently, and
exactly then a recovery was requested for every degradation. -/
theorem covered_iff_no_silent_degrade (deadlineMs : U32) (acts : List LiveAction) :
    (Machine.Always (step deadlineMs) Covered {} acts ↔
      Machine.Along (step deadlineMs) (fun s a => ¬ s.Silent a) {} acts) ∧
    (Machine.Always (step deadlineMs) Requested {} acts ↔
      Machine.Along (step deadlineMs) (fun s a => ¬ s.Silent a) {} acts) :=
  ⟨always_iff_no_silent (fun _ h => h.covered) (fun _ _ _ h ha => (silent_step h ha).1) _ _,
    always_iff_no_silent (fun _ h hfsm => (h hfsm).1) (fun _ _ _ h ha => (silent_step h ha).2) _ _⟩

/-- A heartbeat, and then the fault event the driver makes when its watchdog
expires. -/
def driverFaultRun : List LiveAction :=
  [.frame (.packed safetyFrameHeartbeat 0 100 (safetyHeartbeatPayload 100 0)),
    .frame (.packed safetyFrameFaultEvent 0 600
      (safetyFaultEventPayload safetyFaultTaskHang 1 1 600))]

theorem not_covered_after_driver_fault :
    (Machine.after (step 350) {} driverFaultRun).loop.fsm = .degraded ∧
    (Machine.after (step 350) {} driverFaultRun).requested = none ∧
    ¬ Machine.Always (step 350) Covered {} driverFaultRun := by
  have hdegraded : (Machine.after (step 350) {} driverFaultRun).loop.fsm = .degraded := by decide
  refine ⟨hdegraded, by decide, fun h => ?_⟩
  obtain ⟨t, ht | ⟨rep, hrep, -⟩, -⟩ := h.2.2 hdegraded
  · have hnil : (Machine.after (step 350) {} driverFaultRun).worker.tickets = [] := by decide
    cases hnil ▸ ht
  · cases hrep

end Traced

end SafetyCopro
