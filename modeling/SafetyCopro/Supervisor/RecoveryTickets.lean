import SafetyCopro.Supervisor.RecoveryWorker

/-!
The worker hands sequence numbers on and never looks at them. So it holds and
reports only numbers that were requested, and a run on tagged numbers is, with
the tags taken off, a run on the numbers themselves.
-/

namespace SafetyCopro
variable {τ σ : Type}

/-- The sequence numbers each part of the worker holds. -/
def RecoveryRequest.ticket : RecoveryRequest τ → Option τ
  | .recover seq _ => some seq
  | .restored _ => none

def WorkerPc.ticket : WorkerPc τ → Option τ
  | .sending seq _ => some seq
  | .reporting rep => some rep.seq
  | _ => none

namespace RecoveryWorker

def tickets (w : RecoveryWorker τ) : List τ :=
  w.queue.filterMap RecoveryRequest.ticket ++ (w.active.map ActiveRecovery.seq).toList ++
    w.pc.ticket.toList

theorem mem_tickets {w : RecoveryWorker τ} {t : τ} :
    t ∈ w.tickets ↔
      (∃ ts, .recover t ts ∈ w.queue) ∨ (∃ a, w.active = some a ∧ a.seq = t) ∨
        w.pc.ticket = some t := by
  have hqueue : t ∈ w.queue.filterMap RecoveryRequest.ticket ↔ ∃ ts, .recover t ts ∈ w.queue := by
    rw [List.mem_filterMap]
    refine ⟨fun ⟨req, hreq, ht⟩ => ?_, fun ⟨ts, h⟩ => ⟨_, h, rfl⟩⟩
    cases req with
    | recover seq ts =>
        obtain rfl : seq = t := Option.some.inj ht
        exact ⟨ts, hreq⟩
    | restored ts => cases ht
  simp only [tickets, List.mem_append, hqueue, or_assoc, Option.mem_toList,
    Option.map_eq_some_iff]

theorem ticket_of_parked {pc : WorkerPc τ} (h : pc.Parked) : pc.ticket = none := by
  cases pc <;> first | rfl | exact h.elim

theorem mem_tickets_requestRecovery {w : RecoveryWorker τ} {seq t : τ} {nowMs : I64} :
    t ∈ (w.requestRecovery seq nowMs).tickets ↔ t ∈ w.tickets ∨ t = seq := by
  simp only [mem_tickets, requestRecovery, List.mem_append, List.mem_singleton,
    RecoveryRequest.recover.injEq, exists_or, exists_and_left, exists_eq, and_true]
  exact or_right_comm

@[simp] theorem tickets_notifyHeartbeatRestored (w : RecoveryWorker τ) (nowMs : I64) :
    (w.notifyHeartbeatRestored nowMs).tickets = w.tickets := by
  simp [tickets, notifyHeartbeatRestored, RecoveryRequest.ticket]

theorem mem_tickets_checkDeadline {w : RecoveryWorker τ} {t : τ}
    (h : t ∈ w.checkDeadline.tickets) : t ∈ w.tickets := by
  rw [checkDeadline] at h
  split at h
  · rename_i a ha
    split at h
    · simp only [mem_tickets, WorkerPc.ticket] at h ⊢
      obtain ⟨ts, hts⟩ | ⟨a, ha, -⟩ | h := h
      · exact Or.inl ⟨ts, hts⟩
      · cases ha
      · exact Or.inr (Or.inl ⟨a, ha, Option.some.inj h⟩)
    · simp only [mem_tickets, WorkerPc.ticket] at h ⊢
      obtain h | h | h := h
      · exact Or.inl h
      · exact Or.inr (Or.inl h)
      · cases h
  · simp only [mem_tickets, WorkerPc.ticket] at h ⊢
    obtain h | h | h := h
    · exact Or.inl h
    · exact Or.inr (Or.inl h)
    · cases h

theorem mem_tickets_serve {deadlineMs : U32} {w : RecoveryWorker τ} {t : τ}
    (h : t ∈ (serve deadlineMs w w.queue).1.tickets) : t ∈ w.tickets := by
  obtain ⟨rs, -, ⟨hq, hserve⟩ | ⟨seq, ts, rest, hq, hserve⟩ | ⟨a, ts, rest, ha, hq, hserve⟩⟩ :=
    serve_cases deadlineMs w w.queue
  · rw [hserve] at h
    have h := mem_tickets_checkDeadline h
    simp only [mem_tickets, List.not_mem_nil, exists_false, false_or] at h ⊢
    exact Or.inr h
  · rw [hserve] at h
    simp only [mem_tickets, WorkerPc.ticket, hq] at h ⊢
    obtain ⟨ts', h⟩ | ⟨a, ha, rfl⟩ | h := h
    · exact Or.inl ⟨ts', by simp [h]⟩
    · obtain rfl := Option.some.inj ha
      exact Or.inl ⟨ts, by simp⟩
    · obtain rfl := Option.some.inj h
      exact Or.inl ⟨ts, by simp⟩
  · rw [hserve] at h
    simp only [mem_tickets, WorkerPc.ticket, hq] at h ⊢
    obtain ⟨ts', h⟩ | ⟨a', ha', -⟩ | h := h
    · exact Or.inl ⟨ts', by simp [h]⟩
    · cases ha'
    · exact Or.inr (Or.inl ⟨a, ha, Option.some.inj h⟩)

theorem not_reported_serve {deadlineMs : U32} {w : RecoveryWorker τ} {rep : RecoveryReport τ} :
    .reported rep ∉ (serve deadlineMs w w.queue).2 := by
  obtain ⟨rs, -, ⟨hq, hserve⟩ | ⟨seq, ts, rest, hq, hserve⟩ | ⟨a, ts, rest, ha, hq, hserve⟩⟩ :=
    serve_cases deadlineMs w w.queue <;> simp [hserve]

theorem pc_of_reported {deadlineMs : U32} {nowMs : Int} {sent : Bool} {w : RecoveryWorker τ}
    {rep : RecoveryReport τ} (h : .reported rep ∈ (w.step deadlineMs nowMs sent).2) :
    w.pc = .reporting rep := by
  obtain ⟨pc, -, -, hstep⟩ | ⟨-, hstep⟩ | ⟨seq, ts, -, hstep⟩ | ⟨rep', hpc, hstep⟩ :=
    w.step_cases deadlineMs nowMs sent <;> rw [hstep] at h
  · cases h
  · exact absurd h not_reported_serve
  · cases sent <;> simp at h
  · rw [hpc, WorkerEvent.reported.inj (List.mem_singleton.mp h)]

/-- A step neither invents a sequence number nor reports one it did not hold. -/
theorem mem_tickets_step {deadlineMs : U32} {nowMs : Int} {sent : Bool} {w : RecoveryWorker τ}
    {t : τ} (h : t ∈ (w.step deadlineMs nowMs sent).1.tickets ∨
      ∃ rep, .reported rep ∈ (w.step deadlineMs nowMs sent).2 ∧ rep.seq = t) :
    t ∈ w.tickets := by
  obtain ⟨pc, hpc, -, hstep⟩ | ⟨-, hstep⟩ | ⟨seq, ts, hpc, hstep⟩ | ⟨rep, hpc, hstep⟩ :=
    w.step_cases deadlineMs nowMs sent <;> rw [hstep] at h
  · simp only [mem_tickets, ticket_of_parked hpc, List.not_mem_nil, false_and,
      exists_false, or_false] at h ⊢
    exact h.elim Or.inl fun h => Or.inr (h.elim Or.inl nofun)
  · obtain h | ⟨rep, h, -⟩ := h
    · exact mem_tickets_serve h
    · exact absurd h not_reported_serve
  · rw [mem_tickets, hpc]
    cases sent with
    | true => simpa [mem_tickets, WorkerPc.ticket] using h
    | false =>
        simp only [mem_tickets, WorkerPc.ticket, Bool.false_eq_true, if_false, List.not_mem_nil,
          false_and, exists_false, or_false, reduceCtorEq] at h
        exact h.elim Or.inl fun h => Or.inr (Or.inl h)
  · obtain h | ⟨rep', hrep, rfl⟩ := h
    · rw [mem_tickets, hpc]
      have hnone : ∀ p : Prop, [Decidable p] →
          (if p then WorkerPc.top else .inner : WorkerPc τ).ticket = none := by
        intro p _
        split <;> rfl
      simp only [mem_tickets, hnone] at h
      exact h.elim Or.inl fun h => Or.inr (h.elim Or.inl nofun)
    · obtain rfl := WorkerEvent.reported.inj (List.mem_singleton.mp hrep)
      exact mem_tickets.mpr (Or.inr (Or.inr (congrArg WorkerPc.ticket hpc)))

end RecoveryWorker

/-! ### Retagging -/

section Map
variable (g : τ → σ)

def RecoveryReport.map (rep : RecoveryReport τ) : RecoveryReport σ :=
  ⟨rep.outcome, g rep.seq, rep.tsMs⟩

def RecoveryRequest.map : RecoveryRequest τ → RecoveryRequest σ
  | .recover seq ts => .recover (g seq) ts
  | .restored ts => .restored ts

def ActiveRecovery.map (a : ActiveRecovery τ) : ActiveRecovery σ := ⟨g a.seq, a.deadlineAtMs⟩

def WorkerPc.map : WorkerPc τ → WorkerPc σ
  | .top => .top
  | .waiting => .waiting
  | .waitingUntil untilMs => .waitingUntil untilMs
  | .sending seq ts => .sending (g seq) ts
  | .reporting rep => .reporting (rep.map g)
  | .inner => .inner
  | .stopped => .stopped

def WorkerEvent.map : WorkerEvent τ → WorkerEvent σ
  | .dequeued req => .dequeued (req.map g)
  | .sentCommand seq ts => .sentCommand (g seq) ts
  | .reported rep => .reported (rep.map g)

namespace RecoveryWorker

def map (w : RecoveryWorker τ) : RecoveryWorker σ where
  queue := w.queue.map (RecoveryRequest.map g)
  active := w.active.map (ActiveRecovery.map g)
  stopping := w.stopping
  pc := w.pc.map g

theorem map_requestRecovery (w : RecoveryWorker τ) (seq : τ) (nowMs : I64) :
    (w.requestRecovery seq nowMs).map g = (w.map g).requestRecovery (g seq) nowMs := by
  simp [map, requestRecovery, RecoveryRequest.map]

theorem map_notifyHeartbeatRestored (w : RecoveryWorker τ) (nowMs : I64) :
    (w.notifyHeartbeatRestored nowMs).map g = (w.map g).notifyHeartbeatRestored nowMs := by
  simp [map, notifyHeartbeatRestored, RecoveryRequest.map]

theorem map_checkDeadline (w : RecoveryWorker τ) :
    w.checkDeadline.map g = (w.map g).checkDeadline := by
  obtain ⟨queue, active, stopping, pc⟩ := w
  cases active with
  | none => rfl
  | some a => cases queue <;> rfl

theorem map_serve (deadlineMs : U32) (w : RecoveryWorker τ) (q : List (RecoveryRequest τ)) :
    serve deadlineMs (w.map g) (q.map (RecoveryRequest.map g)) =
      ((serve deadlineMs w q).1.map g, (serve deadlineMs w q).2.map (WorkerEvent.map g)) := by
  induction q with
  | nil => simp only [serve, map_checkDeadline, List.map_nil]; rfl
  | cons req q ih =>
      cases req with
      | recover seq ts => rfl
      | restored ts =>
          obtain ⟨queue, active, stopping, pc⟩ := w
          cases active with
          | some a => rfl
          | none =>
              simp only [List.map_cons, RecoveryRequest.map, serve, ih]
              rfl

/-- A step commutes with a change of the sequence numbers. -/
theorem map_step (deadlineMs : U32) (nowMs : Int) (sent : Bool) (w : RecoveryWorker τ) :
    (w.map g).step deadlineMs nowMs sent =
      ((w.step deadlineMs nowMs sent).1.map g,
        (w.step deadlineMs nowMs sent).2.map (WorkerEvent.map g)) := by
  have hserve := map_serve g deadlineMs w w.queue
  obtain ⟨queue, active, stopping, pc⟩ := w
  cases pc with
  | top =>
      cases stopping with
      | true => rfl
      | false =>
          cases queue with
          | nil => cases active <;> rfl
          | cons req queue => exact hserve
  | waiting =>
      cases stopping with
      | true => rfl
      | false =>
          cases queue with
          | nil => rfl
          | cons req queue => exact hserve
  | waitingUntil untilMs =>
      cases stopping with
      | true => rfl
      | false => exact hserve
  | sending seq ts => cases sent <;> rfl
  | reporting rep =>
      obtain ⟨outcome, seq, ts⟩ := rep
      cases outcome <;> rfl
  | inner => exact hserve
  | stopped => rfl

end RecoveryWorker

end Map

end SafetyCopro
