import SafetyCopro.Supervisor.MockRun

/-!
Where a mock run ends, read off its frames. The mock makes up a recovery with
the timeout and ends it with the same heartbeat, so after a frame the machine
has not booted, is `HEALTHY`, or has stopped in `SAFE_MODE`; and every request
it logs is followed by a success.
-/

namespace SafetyCopro

/-- The frame validates and no frame before it, valid or not, has its key. -/
def AcceptedAfter (pre : List ParsedFrame) (f : ParsedFrame) : Prop :=
  f.ok ∧ ∀ g ∈ pre, g.key ≠ f.key

/-- A heartbeat was accepted. -/
def Booted (frames : List ParsedFrame) : Prop :=
  ∃ pre f post, frames = pre ++ f :: post ∧
    AcceptedAfter pre f ∧ f.type = safetyFrameHeartbeat

/-- A critical fault was accepted after the first accepted heartbeat. -/
def Struck (frames : List ParsedFrame) : Prop :=
  ∃ pre f post, frames = pre ++ f :: post ∧
    AcceptedAfter pre f ∧ f.type = safetyFrameFaultEvent ∧
    8 ≤ f.payload.length ∧ 2 ≤ byteAt f.payload 1 ∧ Booted pre

def LogEvent.isRequest (e : LogEvent) : Bool :=
  e.kind = .txCommand ∧ e.detail = Text.lit "REQUEST_RECOVERY"

def LogEvent.isSuccess (e : LogEvent) : Bool :=
  e.kind = .recoveryResult ∧ e.detail = Text.lit "RECOVERY_SUCCESS"

/-- As many requests as successes are logged. -/
def Balanced (effs : List Effect) : Prop :=
  (logOf effs).countP LogEvent.isRequest = (logOf effs).countP LogEvent.isSuccess

theorem Balanced.append {effs effs' : List Effect} (h : Balanced effs) (h' : Balanced effs') :
    Balanced (effs ++ effs') := by
  rw [Balanced, logOf_append, List.countP_append, List.countP_append, h, h']

/-- Effects that log no command and no result. -/
theorem balanced_of_kind {effs : List Effect}
    (h : ∀ e, .log e ∈ effs → e.kind ≠ .txCommand ∧ e.kind ≠ .recoveryResult) :
    Balanced effs := by
  have hlog : ∀ e ∈ logOf effs, e.kind ≠ .txCommand ∧ e.kind ≠ .recoveryResult := by
    intro e he
    obtain he | ⟨r, -, -, rfl⟩ := mem_logOf he
    · exact h e he
    · exact ⟨LogKind.noConfusion, LogKind.noConfusion⟩
  have hrequest : (logOf effs).countP LogEvent.isRequest = 0 :=
    List.countP_eq_zero.mpr fun e he => by simp [LogEvent.isRequest, (hlog e he).1]
  have hsuccess : (logOf effs).countP LogEvent.isSuccess = 0 :=
    List.countP_eq_zero.mpr fun e he => by simp [LogEvent.isSuccess, (hlog e he).2]
  rw [Balanced, hrequest, hsuccess]

/-- A request, and a success behind it. -/
theorem Balanced.recovery {effs : List Effect} (h : Balanced effs) {e e' : LogEvent}
    (hkind : e.kind = .txCommand) (hdetail : e.detail = Text.lit "REQUEST_RECOVERY")
    (hkind' : e'.kind = .recoveryResult) (hdetail' : e'.detail = Text.lit "RECOVERY_SUCCESS") :
    Balanced (.log e :: (effs ++ [.log e'])) := by
  have hlog : logOf (.log e :: (effs ++ [.log e'])) = e :: (logOf effs ++ [e']) := by
    rw [← List.singleton_append, logOf_append, logOf_append]
    rfl
  have he : e.isRequest = true ∧ e.isSuccess = false := by
    simp [LogEvent.isRequest, LogEvent.isSuccess, hkind, hdetail]
  have he' : e'.isRequest = false ∧ e'.isSuccess = true := by
    simp [LogEvent.isRequest, LogEvent.isSuccess, hkind', hdetail']
  rw [Balanced] at h
  simp [Balanced, hlog, he, he', h]

theorem booted_concat {frames : List ParsedFrame} {f : ParsedFrame} :
    Booted (frames ++ [f]) ↔
      Booted frames ∨ AcceptedAfter frames f ∧ f.type = safetyFrameHeartbeat :=
  Machine.exists_split_concat

theorem ParsedFrame.two_le_severity_iff {f : ParsedFrame} :
    2 ≤ f.severity ↔ 8 ≤ f.payload.length ∧ 2 ≤ byteAt f.payload 1 := by
  rw [severity]
  split
  · rename_i hlen
    exact (and_iff_right hlen).symm
  · rename_i hlen
    exact iff_of_false (by decide) fun h => hlen h.1

theorem struck_concat {frames : List ParsedFrame} {f : ParsedFrame} :
    Struck (frames ++ [f]) ↔
      Struck frames ∨ AcceptedAfter frames f ∧ f.type = safetyFrameFaultEvent ∧
        2 ≤ f.severity ∧ Booted frames := by
  rw [ParsedFrame.two_le_severity_iff, and_assoc]
  exact Machine.exists_split_concat

namespace Mock
variable {hbTimeoutMs : U32} {m : Mock} {f : ParsedFrame}

/-- The mock between two frames. -/
structure Settled (m : Mock) : Prop where
  state : m.fsm = .booting ∨ m.fsm = .healthy ∨ m.fsm = .safeMode
  noRecovery : m.inRecovery = false
  noHeartbeat : m.fsm = .booting → m.haveLastHb = false

theorem balanced_beat (r : TransitionResult) (f : ParsedFrame) :
    Balanced [.applied r, .log (EventLoop.txAckEvent f)] :=
  balanced_of_kind (by simp [EventLoop.txAckEvent])

theorem balanced_timeout (hbTimeoutMs gap : U32) (r : TransitionResult) (f : ParsedFrame) :
    Balanced [.log (timeoutEvent hbTimeoutMs gap f), .applied r] :=
  balanced_of_kind (by simp [timeoutEvent])

/-- The recovery of a late heartbeat, from the request to the success. -/
theorem balanced_recovery (m : Mock) (r r' : TransitionResult) (f : ParsedFrame) :
    Balanced [.log (m.requestRecoveryEvent f), .applied r, .applied r',
      .log (recoverySuccessEvent f)] :=
  have hsteps : Balanced [.applied r, .applied r'] := balanced_of_kind (by simp)
  hsteps.recovery rfl rfl rfl rfl

theorem balanced_ack (f : ParsedFrame) : Balanced [.log (EventLoop.txAckEvent f)] :=
  balanced_of_kind (by simp [EventLoop.txAckEvent])

/-- A heartbeat boots the machine and ends what its gap has begun. -/
theorem Settled.onHeartbeat (h : m.Settled) (hbTimeoutMs : U32) (f : ParsedFrame) :
    (m.onHeartbeat hbTimeoutMs f).1.Settled ∧
      (m.onHeartbeat hbTimeoutMs f).1.fsm = m.fsm.target .heartbeatOk ∧
      Balanced (m.onHeartbeat hbTimeoutMs f).2 := by
  obtain ⟨fsm, dup, haveLastHb, lastHbTs, inRecovery, txSeq, nackCount⟩ := m
  obtain rfl : inRecovery = false := h.noRecovery
  obtain hfsm | hfsm | hfsm := h.state
  · obtain rfl : fsm = .booting := hfsm
    obtain rfl : haveLastHb = false := h.noHeartbeat rfl
    -- no gap without a heartbeat before
    exact ⟨⟨Or.inr (Or.inl rfl), rfl, nofun⟩, rfl, balanced_beat _ f⟩
  · obtain rfl : fsm = .healthy := hfsm
    unfold Mock.onHeartbeat checkGap
    by_cases hgap : Gap hbTimeoutMs
        ⟨.healthy, dup, haveLastHb, lastHbTs, false, txSeq, nackCount⟩ f
    · rw [if_pos hgap]
      exact ⟨⟨Or.inr (Or.inl rfl), rfl, nofun⟩, rfl, (balanced_timeout ..).append
        ((balanced_recovery _ _ _ f).append (balanced_ack f))⟩
    · rw [if_neg hgap]
      exact ⟨⟨Or.inr (Or.inl rfl), rfl, nofun⟩, rfl, balanced_beat _ f⟩
  · obtain rfl : fsm = .safeMode := hfsm
    unfold Mock.onHeartbeat checkGap
    by_cases hgap : Gap hbTimeoutMs
        ⟨.safeMode, dup, haveLastHb, lastHbTs, false, txSeq, nackCount⟩ f
    · rw [if_pos hgap]
      exact ⟨⟨Or.inr (Or.inr rfl), rfl, nofun⟩, rfl,
        (balanced_timeout ..).append (balanced_beat _ f)⟩
    · rw [if_neg hgap]
      exact ⟨⟨Or.inr (Or.inr rfl), rfl, nofun⟩, rfl, balanced_beat _ f⟩

theorem Settled.onFaultEvent (h : m.Settled) (f : ParsedFrame) :
    (m.onFaultEvent f).1.Settled ∧
      (m.onFaultEvent f).1.fsm =
        (if 2 ≤ f.severity then m.fsm.target .criticalFault else m.fsm) ∧
      Balanced (m.onFaultEvent f).2 := by
  unfold Mock.onFaultEvent
  split
  · obtain ⟨fsm, dup, haveLastHb, lastHbTs, inRecovery, txSeq, nackCount⟩ := m
    obtain rfl : inRecovery = false := h.noRecovery
    obtain hfsm | hfsm | hfsm := h.state
    · obtain rfl : fsm = .booting := hfsm
      exact ⟨⟨Or.inl rfl, rfl, fun _ => h.noHeartbeat rfl⟩, rfl, balanced_of_kind (by simp)⟩
    · obtain rfl : fsm = .healthy := hfsm
      exact ⟨⟨Or.inr (Or.inr rfl), rfl, nofun⟩, rfl, balanced_of_kind (by simp)⟩
    · obtain rfl : fsm = .safeMode := hfsm
      exact ⟨⟨Or.inr (Or.inr rfl), rfl, nofun⟩, rfl, balanced_of_kind (by simp)⟩
  · exact ⟨h, rfl, balanced_of_kind (by simp)⟩

/-- What a frame does, by its kind. -/
theorem Settled.processFrame (h : m.Settled) (hbTimeoutMs : U32) (f : ParsedFrame) :
    (m.processFrame hbTimeoutMs f).1.Settled ∧
      (m.processFrame hbTimeoutMs f).1.fsm =
        (if m.Beat f then m.fsm.target .heartbeatOk
        else if m.CriticalFault f then m.fsm.target .criticalFault
        else m.fsm) ∧
      Balanced (m.processFrame hbTimeoutMs f).2 := by
  obtain hok | ⟨hok, hseen⟩ | hacc := m.frame_cases f
  · have hno : ¬ m.Accepts f := fun hacc => hok hacc.1
    rw [processFrame_of_not_ok _ hok, if_neg fun hb : m.Beat f => hno hb.1,
      if_neg fun hc : m.CriticalFault f => hno hc.1]
    exact ⟨⟨h.state, h.noRecovery, h.noHeartbeat⟩, rfl, balanced_of_kind (by simp [rejectFrame])⟩
  · have hno : ¬ m.Accepts f := fun hacc => hacc.2 hseen
    rw [processFrame_of_seen _ hok hseen, if_neg fun hb : m.Beat f => hno hb.1,
      if_neg fun hc : m.CriticalFault f => hno hc.1]
    exact ⟨h, rfl, balanced_of_kind (by simp [EventLoop.duplicateEvent])⟩
  · have hrecord : (m.record f).Settled := ⟨h.state, h.noRecovery, h.noHeartbeat⟩
    have hrx : Balanced [.log (rxFrameEvent f)] := balanced_of_kind (by simp [rxFrameEvent])
    rw [processFrame_of_accepts _ hacc, dispatch]
    by_cases hbeat : f.type = safetyFrameHeartbeat
    · obtain ⟨hsettled, hfsm, hbalanced⟩ := hrecord.onHeartbeat hbTimeoutMs f
      have hb : m.Beat f := ⟨hacc, hbeat⟩
      rw [if_pos hbeat, if_pos hb]
      exact ⟨hsettled, hfsm, hrx.append hbalanced⟩
    rw [if_neg hbeat, if_neg fun hb : m.Beat f => hbeat hb.2]
    by_cases hfault : f.type = safetyFrameFaultEvent
    · obtain ⟨hsettled, hfsm, hbalanced⟩ := hrecord.onFaultEvent f
      rw [if_pos hfault]
      refine ⟨hsettled, hfsm.trans ?_, hrx.append hbalanced⟩
      have hiff : m.CriticalFault f ↔ 2 ≤ f.severity :=
        ⟨fun hc => hc.2.2, fun hs => ⟨hacc, hfault, hs⟩⟩
      simp only [hiff]
      rfl
    · rw [if_neg hfault, if_neg fun hc : m.CriticalFault f => hfault hc.2.1]
      exact ⟨hrecord, rfl, hrx⟩

/-- The mock behind these frames, with what it has logged. -/
structure Outcome (frames : List ParsedFrame) (effs : List Effect) (m : Mock) : Prop where
  settled : m.Settled
  seen : ∀ k, k ∈ m.dup.seen ↔ ∃ g ∈ frames, g.key = k
  booting : m.fsm = .booting ↔ ¬ Booted frames
  safeMode : m.fsm = .safeMode ↔ Struck frames
  balanced : Balanced effs

theorem outcome_init : Outcome [] [] {} := by
  refine ⟨⟨Or.inl rfl, rfl, fun _ => rfl⟩, by simp, iff_of_true rfl ?_, iff_of_false nofun ?_,
    balanced_of_kind (by simp)⟩
  · rintro ⟨pre, f, post, h, -⟩
    simp at h
  · rintro ⟨pre, f, post, h, -⟩
    simp at h

namespace Outcome
variable {frames : List ParsedFrame} {effs : List Effect}

theorem accepts_iff (h : Outcome frames effs m) : m.Accepts f ↔ AcceptedAfter frames f := by
  refine and_congr_right fun _ => ?_
  rw [h.seen]
  exact ⟨fun hno g hg hkey => hno ⟨g, hg, hkey⟩, fun hno ⟨g, hg, hkey⟩ => hno g hg hkey⟩

theorem fsm_ne_booting (h : Outcome frames effs m) :
    m.fsm ≠ .booting ↔ m.fsm = .healthy ∨ m.fsm = .safeMode := by
  obtain hfsm | hfsm | hfsm := h.settled.state <;> rw [hfsm] <;> decide

theorem step (h : Outcome frames effs m) (hbTimeoutMs : U32) (f : ParsedFrame) :
    Outcome (frames ++ [f]) (effs ++ (m.processFrame hbTimeoutMs f).2)
      (m.processFrame hbTimeoutMs f).1 := by
  obtain ⟨hsettled, hfsm, hbalanced⟩ := h.settled.processFrame hbTimeoutMs f
  have hseen : ∀ k, k ∈ (m.processFrame hbTimeoutMs f).1.dup.seen ↔
      ∃ g ∈ frames ++ [f], g.key = k := by
    intro k
    rw [mem_processFrame_seen, h.seen]
    simp only [List.mem_append, List.mem_singleton, or_and_right, exists_or, exists_eq_left,
      eq_comm (a := k)]
  have hbooted : Booted frames ↔ m.fsm = .healthy ∨ m.fsm = .safeMode := by
    rw [← h.fsm_ne_booting, ne_eq, h.booting, not_not]
  refine ⟨hsettled, hseen, ?_, ?_, h.balanced.append hbalanced⟩
  · rw [hfsm, booted_concat, ← h.accepts_iff, hbooted]
    by_cases hb : m.Beat f
    · rw [if_pos hb]
      refine iff_of_false ?_ (not_not_intro (Or.inr hb))
      obtain hs | hs | hs := h.settled.state <;> rw [hs] <;> decide
    · have hno : ¬ (m.Accepts f ∧ f.type = safetyFrameHeartbeat) := hb
      rw [if_neg hb, or_iff_left hno]
      obtain hs | hs | hs := h.settled.state <;> rw [hs] <;> split <;> decide
  · rw [hfsm, struck_concat, ← h.accepts_iff, ← h.safeMode, hbooted]
    by_cases hb : m.Beat f
    · rw [if_pos hb, or_iff_left fun hc => absurd (hb.2.symm.trans hc.2.1) (by decide)]
      obtain hs | hs | hs := h.settled.state <;> rw [hs] <;> decide
    by_cases hc : m.CriticalFault f
    · have hstruck : ∀ {p : Prop}, (m.Accepts f ∧ f.type = safetyFrameFaultEvent ∧
          2 ≤ f.severity ∧ p) ↔ p :=
        ⟨fun h => h.2.2.2, fun hp => ⟨hc.1, hc.2.1, hc.2.2, hp⟩⟩
      rw [if_neg hb, if_pos hc, hstruck]
      obtain hs | hs | hs := h.settled.state <;> rw [hs] <;> decide
    · rw [if_neg hb, if_neg hc, or_iff_left fun hc' => hc ⟨hc'.1, hc'.2.1, hc'.2.2.1⟩]

end Outcome

theorem outcome_run (hbTimeoutMs : U32) (frames : List ParsedFrame) :
    Outcome frames (Machine.outputs (processFrame hbTimeoutMs) {} frames)
      (Machine.after (processFrame hbTimeoutMs) {} frames) :=
  Machine.run_history (fun _ _ _ f h => h.step hbTimeoutMs f) outcome_init frames

/-- For every file and every timeout: the states between frames, where the run
ends, and the balance of its recoveries. -/
theorem runMock_outcome (hbTimeoutMs : U32) (data : List U8) :
    let frames := (FrameAssembler.feed [] data).1
    let final := (runMock hbTimeoutMs data).1.fsm
    let log := logOf (runMock hbTimeoutMs data).2
    (∀ n, (Machine.after (processFrame hbTimeoutMs) {} (frames.take n)).fsm ∈
      [.booting, .healthy, .safeMode]) ∧
    (final = .booting ↔ ¬ Booted frames) ∧
    (final = .safeMode ↔ Struck frames) ∧
    (final = .healthy ↔ Booted frames ∧ ¬ Struck frames) ∧
    log.countP LogEvent.isRequest = log.countP LogEvent.isSuccess := by
  intro frames final log
  have h := outcome_run hbTimeoutMs frames
  refine ⟨fun n => ?_, h.booting, h.safeMode, ?_, h.balanced⟩
  · have hstate := (outcome_run hbTimeoutMs (frames.take n)).settled.state
    simpa using hstate
  · have hstate : final = .booting ∨ final = .healthy ∨ final = .safeMode := h.settled.state
    have hbooted : Booted frames ↔ final ≠ .booting := (not_iff_comm.mp h.booting.symm).symm
    have hstruck : ¬ Struck frames ↔ final ≠ .safeMode := not_congr h.safeMode.symm
    rw [hbooted, hstruck]
    obtain hs | hs | hs := hstate <;> rw [hs] <;> decide

end Mock

end SafetyCopro
