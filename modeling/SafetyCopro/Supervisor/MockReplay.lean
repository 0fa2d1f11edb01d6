import SafetyCopro.Supervisor.LogLines
import SafetyCopro.Supervisor.MockRun

/-!
Replaying the log of a mock run. The mock logs a late heartbeat before the
timeout it makes up for it, so the reader, which takes the lines in order, is
still waiting for a heartbeat when the mock is `HEALTHY` again. It catches up
with the next heartbeat, if there is one. Critical faults it does not see.
-/

namespace SafetyCopro

namespace Mock
variable (hbTimeoutMs : U32)

/-! ### The reader behind the mock -/

/-- Whether the reader waits for a heartbeat after this frame; `late` says so
before it. -/
def lateAfter (late : Bool) (m : Mock) (f : ParsedFrame) : Bool :=
  if m.Beat f then decide (m.Late hbTimeoutMs f) else late

/-- The state of the reader while the mock is in `s`. -/
def readerState (late : Bool) (s : HealthState) : HealthState := if late then .recovering else s

/-- The transition the mock has made and the reader has not. -/
def owed (late : Bool) : List TransitionResult :=
  if late then [HealthState.recovering.apply .heartbeatRestored] else []

/-- The states of a run without an accepted critical fault. -/
def Tracked (late : Bool) (m : Mock) : Prop :=
  m.fsm = .booting ∧ m.haveLastHb = false ∧ late = false ∨ m.fsm = .healthy

/-- Over these effects the mock goes from `s` to `m'` and the reader goes with
it, one transition behind while it waits. -/
structure Follows (late late' : Bool) (s : HealthState) (m' : Mock) (effs : List Effect) :
    Prop where
  tracked : Tracked late' m'
  state : Machine.after HealthState.replay (readerState late s) (logOf effs) =
    readerState late' m'.fsm
  transitions : owed late ++ transitionsOf effs =
    Machine.outputs HealthState.replay (readerState late s) (logOf effs) ++ owed late'

theorem Follows.trans {late late' late'' : Bool} {s : HealthState} {m' m'' : Mock}
    {effs effs' : List Effect} (h : Follows late late' s m' effs)
    (h' : Follows late' late'' m'.fsm m'' effs') : Follows late late'' s m'' (effs ++ effs') where
  tracked := h'.tracked
  state := by rw [logOf_append, Machine.after_append, h.state, h'.state]
  transitions := by
    rw [transitionsOf_append, ← List.append_assoc, h.transitions, List.append_assoc,
      h'.transitions, logOf_append, Machine.outputs_append, h.state, List.append_assoc]

theorem follows_of_quiet {late : Bool} (m' : Mock) {effs : List Effect} (h : Tracked late m')
    (hquiet : ∀ e ∈ logOf effs, e.drives (readerState late m'.fsm) = none)
    (htrans : transitionsOf effs = []) : Follows late late m'.fsm m' effs := by
  have hreplay := replay_of_drives_none hquiet
  refine ⟨h, hreplay.1, ?_⟩
  rw [hreplay.2, htrans, List.append_nil, List.nil_append]

/-- The line of a heartbeat lets the reader catch up. -/
theorem replay_rx {late : Bool} {m : Mock} (h : Tracked late m) {f : ParsedFrame}
    (htype : f.type = safetyFrameHeartbeat) :
    (readerState late m.fsm).replay (rxFrameEvent f) =
      (.healthy, owed late ++ [m.fsm.apply .heartbeatOk].filter TransitionResult.valid) := by
  rw [HealthState.replay, drives_rxFrame f.type rfl rfl rfl, if_pos htype]
  obtain ⟨hfsm, -, rfl⟩ | hfsm := h
  · rw [readerState, hfsm]
    rfl
  · rw [readerState, hfsm]
    cases late <;> rfl

theorem follows_beat {late : Bool} {m : Mock} (h : Tracked late m) {f : ParsedFrame}
    (htype : f.type = safetyFrameHeartbeat) (hgap : ¬ m.Gap hbTimeoutMs f) :
    Follows late false m.fsm (m.onHeartbeat hbTimeoutMs f).1
      (.log (rxFrameEvent f) :: (m.onHeartbeat hbTimeoutMs f).2) := by
  have hrec : m.fsm ≠ .recovering := by
    obtain ⟨hfsm, -⟩ | hfsm := h <;> rw [hfsm] <;> nofun
  have htarget : m.fsm.target .heartbeatOk = .healthy := by
    obtain ⟨hfsm, -⟩ | hfsm := h <;> rw [hfsm] <;> rfl
  obtain ⟨hfsm', heffs⟩ := m.onHeartbeat_of_not_gap hbTimeoutMs hrec hgap
  have hreplay := replay_cons_quiet (quiet_logOf (m.onHeartbeat hbTimeoutMs f).2
    (by simp [heffs, Effect.Quiet, EventLoop.txAckEvent, LogEvent.Quiet]))
    (rxFrameEvent f) (readerState late m.fsm)
  rw [replay_rx h htype] at hreplay
  refine ⟨Or.inr (hfsm'.trans htarget), hreplay.1.trans (hfsm'.trans htarget).symm, ?_⟩
  · rw [heffs] at hreplay ⊢
    exact hreplay.2.symm.trans (List.append_nil _).symm

/-- The lines behind a late heartbeat leave it waiting again. -/
theorem follows_late {late : Bool} {m : Mock} (hfsm : m.fsm = .healthy) {f : ParsedFrame}
    (htype : f.type = safetyFrameHeartbeat) (hgap : m.Gap hbTimeoutMs f) :
    Follows late true m.fsm (m.onHeartbeat hbTimeoutMs f).1
      (.log (rxFrameEvent f) :: (m.onHeartbeat hbTimeoutMs f).2) := by
  obtain ⟨hfsm', heffs⟩ := m.onHeartbeat_of_gap hbTimeoutMs hfsm hgap
  have htracked : Tracked late m := Or.inr hfsm
  have hrx := replay_rx htracked htype
  have hlog : logOf (.log (rxFrameEvent f) :: (m.onHeartbeat hbTimeoutMs f).2) =
      rxFrameEvent f :: logOf (m.onHeartbeat hbTimeoutMs f).2 := rfl
  refine ⟨Or.inr hfsm', ?_, ?_⟩
  · rw [hlog, Machine.after_cons, hrx, heffs]
    rfl
  · rw [hlog, Machine.outputs_cons, hrx, hfsm, heffs, List.append_assoc, List.append_assoc]
    rfl

theorem follows_other {late : Bool} {m : Mock} (h : Tracked late m) {f : ParsedFrame}
    (hacc : m.Accepts f) (htype : f.type ≠ safetyFrameHeartbeat)
    (hfault : ¬ (m.fsm = .healthy ∧ m.CriticalFault f)) :
    Follows late late m.fsm (m.processFrame hbTimeoutMs f).1 (m.processFrame hbTimeoutMs f).2 := by
  rw [processFrame_of_accepts _ hacc, dispatch, if_neg htype]
  have hrx := drives_rxFrame (e := rxFrameEvent f) f.type rfl rfl rfl
    (readerState late m.fsm)
  rw [if_neg htype] at hrx
  have hskip : Follows late late m.fsm (m.record f) [.log (rxFrameEvent f)] :=
    follows_of_quiet (m.record f) h (List.forall_mem_singleton.mpr hrx) rfl
  split
  · rename_i hevent
    rw [onFaultEvent]
    split
    · rename_i hcritical
      -- only a machine that has not booted is left, and it stays there
      obtain ⟨hfsm, hno, hlate⟩ | hfsm := h
      · have hrecord : (m.record f).fsm = .booting := hfsm
        rw [hrecord]
        rw [hfsm] at hrx ⊢
        refine follows_of_quiet { m.record f with fsm := .booting }
          (Or.inl ⟨rfl, hno, hlate⟩) ?_ rfl
        simpa [logOf, Effect.logged, HealthState.apply, HealthState.target] using hrx
      · exact absurd ⟨hfsm, hacc, hevent, hcritical⟩ hfault
    · exact hskip
  · exact hskip

theorem replay_frame {late : Bool} {m : Mock} (h : Tracked late m) {f : ParsedFrame}
    (hfault : ¬ (m.fsm = .healthy ∧ m.CriticalFault f)) :
    Follows late (m.lateAfter hbTimeoutMs late f) m.fsm (m.processFrame hbTimeoutMs f).1
      (m.processFrame hbTimeoutMs f).2 := by
  obtain hok | ⟨hok, hseen⟩ | hacc := m.frame_cases f
  · rw [lateAfter, if_neg fun hb : m.Beat f => hok hb.1.1, processFrame_of_not_ok _ hok]
    refine follows_of_quiet (m.rejectFrame f).1 h (fun e he => ?_) rfl
    exact (quiet_logOf _ (by simp [rejectFrame, Effect.Quiet, LogEvent.Quiet]) e he).drives _
  · rw [lateAfter, if_neg fun hb : m.Beat f => hb.1.2 hseen, processFrame_of_seen _ hok hseen]
    refine follows_of_quiet m h (fun e he => ?_) rfl
    exact (quiet_logOf _ (by simp [EventLoop.duplicateEvent, Effect.Quiet, LogEvent.Quiet])
      e he).drives _
  · by_cases htype : f.type = safetyFrameHeartbeat
    · rw [lateAfter, if_pos ⟨hacc, htype⟩, processFrame_of_accepts _ hacc, dispatch, if_pos htype]
      by_cases hgap : m.Gap hbTimeoutMs f
      · have hfsm : m.fsm = .healthy := by
          obtain ⟨-, hno, -⟩ | hfsm := h
          · exact absurd hgap.1 (by simp [hno])
          · exact hfsm
        rw [decide_eq_true ⟨⟨hacc, htype⟩, hgap⟩]
        exact follows_late (m := m.record f) hbTimeoutMs hfsm htype hgap
      · rw [decide_eq_false fun hlate : m.Late hbTimeoutMs f => hgap hlate.2]
        exact follows_beat (m := m.record f) hbTimeoutMs h htype hgap
    · rw [lateAfter, if_neg fun hb : m.Beat f => htype hb.2]
      exact follows_other hbTimeoutMs h hacc htype hfault

def lateEnd : Bool → Mock → List ParsedFrame → Bool
  | late, _, [] => late
  | late, m, f :: fs =>
      lateEnd (m.lateAfter hbTimeoutMs late f) (m.processFrame hbTimeoutMs f).1 fs

def NoCriticalFault (m : Mock) (fs : List ParsedFrame) : Prop :=
  Machine.Along (processFrame hbTimeoutMs) (fun m f => ¬ (m.fsm = .healthy ∧ m.CriticalFault f))
    m fs

theorem replay_frames {late : Bool} {m : Mock} (h : Tracked late m) {fs : List ParsedFrame}
    (hfault : NoCriticalFault hbTimeoutMs m fs) :
    Follows late (lateEnd hbTimeoutMs late m fs) m.fsm
      (Machine.after (processFrame hbTimeoutMs) m fs)
      (Machine.outputs (processFrame hbTimeoutMs) m fs) := by
  induction fs generalizing late m with
  | nil => exact ⟨h, rfl, (List.append_nil _)⟩
  | cons f fs ih =>
      have hf := replay_frame hbTimeoutMs h hfault.1
      exact hf.trans (ih hf.tracked hfault.2)

/-- Every late heartbeat is followed by a further accepted heartbeat. -/
def Answered : Mock → List ParsedFrame → Prop
  | _, [] => True
  | m, f :: fs =>
      (m.Late hbTimeoutMs f →
        Machine.Sometime (processFrame hbTimeoutMs) Beat (m.processFrame hbTimeoutMs f).1 fs) ∧
      Answered (m.processFrame hbTimeoutMs f).1 fs

theorem lateEnd_eq_false_iff (late : Bool) (m : Mock) (fs : List ParsedFrame) :
    lateEnd hbTimeoutMs late m fs = false ↔
      (late = true → Machine.Sometime (processFrame hbTimeoutMs) Beat m fs) ∧
        Answered hbTimeoutMs m fs := by
  induction fs generalizing late m with
  | nil => cases late <;> simp [lateEnd, Answered, Machine.Sometime]
  | cons f fs ih =>
      rw [lateEnd, ih, Answered, Machine.Sometime, lateAfter]
      by_cases hbeat : m.Beat f
      · simp [hbeat]
      · have hlate : ¬ m.Late hbTimeoutMs f := fun h => hbeat h.1
        simp [hbeat, hlate]

/-! ### The lines of a mock run -/

theorem readable_frame (m : Mock) (f : ParsedFrame) :
    ∀ eff ∈ (m.processFrame hbTimeoutMs f).2, eff.Readable := by
  obtain hok | ⟨hok, hseen⟩ | hacc := m.frame_cases f
  · rw [processFrame_of_not_ok _ hok]
    simp only [rejectFrame, List.forall_mem_cons]
    exact ⟨⟨printable_frameTypeName _,
        printable_append (printable_of_all rfl) (printable_decimal _)⟩,
      ⟨printable_of_all rfl, printable_append (printable_of_all rfl) (printable_decimal _)⟩, nofun⟩
  · rw [processFrame_of_seen _ hok hseen, List.forall_mem_singleton]
    exact ⟨printable_frameTypeName _, printable_nil⟩
  · rw [processFrame_of_accepts _ hacc, List.forall_mem_cons]
    refine ⟨⟨printable_frameTypeName _, printable_nil⟩, fun eff heff => ?_⟩
    cases eff with
    | log e =>
        obtain rfl | rfl | rfl | rfl := log_mem_dispatch hbTimeoutMs heff
        · refine ⟨printable_of_all rfl, ?_⟩
          have hgap := printable_append (printable_of_all (s := Text.lit "gap=") rfl)
            (printable_decimal ((f.tsMs - m.lastHbTs).toNat : Nat))
          have hlimit := printable_append (printable_append hgap
            (printable_of_all (s := Text.lit "ms > ") rfl)) (printable_decimal hbTimeoutMs.toNat)
          exact printable_append hlimit (printable_of_all rfl)
        · exact ⟨printable_of_all rfl, printable_of_all rfl⟩
        · exact ⟨printable_nil, printable_of_all rfl⟩
        · exact ⟨printable_of_all rfl, printable_nil⟩
    | _ => trivial

theorem detail_of_rxFrame {m : Mock} {f : ParsedFrame} {e : LogEvent}
    (h : .log e ∈ (m.processFrame hbTimeoutMs f).2) (hkind : e.kind = .rxFrame) :
    e.detail = [] := by
  obtain hok | ⟨hok, hseen⟩ | hacc := m.frame_cases f
  · rw [processFrame_of_not_ok _ hok] at h
    simp only [rejectFrame, List.mem_cons, Effect.log.injEq, List.not_mem_nil, or_false] at h
    obtain rfl | rfl := h <;> cases hkind
  · rw [processFrame_of_seen _ hok hseen, List.mem_singleton] at h
    obtain rfl := Effect.log.inj h
    cases hkind
  · rw [processFrame_of_accepts _ hacc] at h
    obtain h | h := List.mem_cons.mp h
    · obtain rfl := Effect.log.inj h
      rfl
    · obtain rfl | rfl | rfl | rfl := log_mem_dispatch hbTimeoutMs h <;> cases hkind

theorem noCriticalFault_of_transitions {m : Mock} {fs : List ParsedFrame}
    (h : ∀ r ∈ transitionsOf (Machine.outputs (processFrame hbTimeoutMs) m fs),
      r.event ≠ .criticalFault) : NoCriticalFault hbTimeoutMs m fs := by
  refine along_of_transitions (fun m f hfault => ?_) h
  obtain ⟨hfsm, hacc, htype, hcritical⟩ := hfault
  have hne : f.type ≠ safetyFrameHeartbeat := by
    rw [htype]
    decide
  have hrecord : (m.record f).fsm = .healthy := hfsm
  refine ⟨HealthState.healthy.apply .criticalFault, mem_transitionsOf.mpr ⟨?_, rfl⟩, rfl⟩
  rw [processFrame_of_accepts _ hacc, dispatch, if_neg hne, if_pos htype, onFaultEvent,
    if_pos hcritical, hrecord]
  exact List.mem_cons_of_mem _ (List.mem_singleton.mpr rfl)

end Mock

theorem readable_runMock (hbTimeoutMs : U32) (data : List U8) :
    ∀ e ∈ logOf (runMock hbTimeoutMs data).2, e.Readable :=
  readable_logOf (Machine.mem_outputs (Mock.readable_frame hbTimeoutMs) _ _)

theorem detail_of_rxFrame {hbTimeoutMs : U32} {data : List U8} {e : LogEvent}
    (h : e ∈ logOf (runMock hbTimeoutMs data).2) (hkind : e.kind = .rxFrame) : e.detail = [] := by
  obtain he | ⟨r, -, -, rfl⟩ := mem_logOf h
  · have hall : ∀ eff ∈ (runMock hbTimeoutMs data).2, ∀ e, eff = .log e → e.kind = .rxFrame →
        e.detail = [] := by
      refine Machine.mem_outputs (fun m f eff heff e hlog => ?_) _ _
      rw [hlog] at heff
      exact Mock.detail_of_rxFrame hbTimeoutMs heff
    exact hall _ he e rfl hkind
  · cases hkind

/-- Replaying the log of a mock run makes the transitions of the run and ends in
its state exactly if no critical fault reaches a `HEALTHY` machine and every
late heartbeat is followed by a further one. -/
theorem mock_reproduces_iff (hbTimeoutMs : U32) (data : List U8) :
    Reproduces (logOf (runMock hbTimeoutMs data).2) (transitionsOf (runMock hbTimeoutMs data).2)
        (runMock hbTimeoutMs data).1.fsm ↔
      Mock.NoCriticalFault hbTimeoutMs {} (FrameAssembler.feed [] data).1 ∧
        Mock.Answered hbTimeoutMs {} (FrameAssembler.feed [] data).1 := by
  have hstart : Mock.Tracked false {} := Or.inl ⟨rfl, rfl, rfl⟩
  have hend := Mock.lateEnd_eq_false_iff hbTimeoutMs false {} (FrameAssembler.feed [] data).1
  rw [reproduces_iff (readable_runMock hbTimeoutMs data)]
  constructor
  · rintro ⟨-, htrans⟩
    have hfault : Mock.NoCriticalFault hbTimeoutMs {} (FrameAssembler.feed [] data).1 := by
      refine Mock.noCriticalFault_of_transitions hbTimeoutMs fun r hr hcritical => ?_
      obtain ⟨e, he, s, hdrives⟩ := mem_replay (htrans ▸ hr)
      refine drives_ne_criticalFault (fun hkind => ?_) s (hdrives.trans (congrArg some hcritical))
      exact detail_of_rxFrame he hkind
    have hfollows := (Mock.replay_frames hbTimeoutMs hstart hfault).transitions
    refine ⟨hfault, (hend.mp ?_).2⟩
    -- nothing is owed at the end
    have howed : Mock.owed (Mock.lateEnd hbTimeoutMs false {} (FrameAssembler.feed [] data).1) =
        [] := by
      have hself := htrans.trans hfollows
      exact List.self_eq_append_right.mp hself
    cases hlate : Mock.lateEnd hbTimeoutMs false {} (FrameAssembler.feed [] data).1 with
    | false => rfl
    | true =>
        rw [hlate] at howed
        cases howed
  · rintro ⟨hfault, hanswered⟩
    have hfollows := Mock.replay_frames hbTimeoutMs hstart hfault
    rw [hend.mpr ⟨nofun, hanswered⟩] at hfollows
    exact ⟨hfollows.state, (hfollows.transitions.trans (List.append_nil _)).symm⟩

/-- Two heartbeats, a second apart. -/
def lateFile : List U8 :=
  packFrame safetyFrameHeartbeat 0 0 (safetyHeartbeatPayload 0 0) ++
    packFrame safetyFrameHeartbeat 1 1000 (safetyHeartbeatPayload 1000 1)

/-- The run ends in `HEALTHY` and its replay in `RECOVERING`. -/
theorem not_mock_reproduces_lateFile :
    ¬ Reproduces (logOf (runMock 350 lateFile).2) (transitionsOf (runMock 350 lateFile).2)
      (runMock 350 lateFile).1.fsm := by
  rw [reproduces_iff (readable_runMock 350 lateFile), runMock, lateFile,
    feed_packFrame_append _ _ _ (by decide), feed_packFrame _ _ _ (by decide)]
  decide

end SafetyCopro
