import SafetyCopro.Supervisor.LiveRun
import SafetyCopro.Supervisor.MockRun

/-!
Live and mock mode on the same frames, without timers and late heartbeats. The
two loops differ in two places: the mock records the key of a corrupt frame, so
it takes the intact frame that follows for a duplicate, and it ignores a fault
that is not critical where the event loop degrades.
-/

namespace SafetyCopro

/-! ### What a frame is taken for -/

def LogKind.classifies : LogKind → Bool
  | .checksumError | .duplicate | .rxFrame => true
  | _ => false

/-- How the frames of a run were classified, in order. -/
def classesOf (effs : List Effect) : List LogKind :=
  ((logOf effs).map LogEvent.kind).filter LogKind.classifies

theorem classesOf_append (effs effs' : List Effect) :
    classesOf (effs ++ effs') = classesOf effs ++ classesOf effs' := by
  rw [classesOf, logOf_append, List.map_append, List.filter_append]
  rfl

/-- What a frame is taken for when these keys were seen. -/
def frameClass (dup : DuplicateDetector) (f : ParsedFrame) : LogKind :=
  if ¬ f.ok then .checksumError else if f.key ∈ dup.seen then .duplicate else .rxFrame

theorem frameClass_eq_iff {d d' : DuplicateDetector} {f : ParsedFrame} :
    frameClass d f = frameClass d' f ↔ (f.ok → (f.key ∈ d.seen ↔ f.key ∈ d'.seen)) := by
  unfold frameClass
  by_cases hok : f.ok
  · by_cases hd : f.key ∈ d.seen <;> by_cases hd' : f.key ∈ d'.seen <;> simp [hok, hd, hd']
  · simp [hok]

theorem classesOf_eq_nil {effs : List Effect}
    (h : ∀ e, .log e ∈ effs → e.kind.classifies = false) : classesOf effs = [] := by
  rw [classesOf, List.filter_eq_nil_iff]
  intro kind hkind
  obtain ⟨e, he, rfl⟩ := List.mem_map.mp hkind
  obtain he | ⟨r, -, -, rfl⟩ := mem_logOf he
  · simp [h e he]
  · nofun

theorem EventLoop.classesOf_processFrame (el : EventLoop) (f : ParsedFrame) :
    classesOf (el.processFrame f).2 = [frameClass el.dup f] := by
  obtain hok | ⟨hok, hseen⟩ | hacc := el.frame_cases f
  · rw [processFrame_of_not_ok hok, frameClass, if_pos hok]
    rfl
  · rw [processFrame_of_seen hok hseen, frameClass, if_neg (not_not_intro hok), if_pos hseen]
    rfl
  · rw [processFrame_of_accepts hacc, frameClass, if_neg (not_not_intro hacc.1), if_neg hacc.2]
    have hrest : classesOf ((el.record f).dispatch f).2 = [] := by
      refine classesOf_eq_nil fun e he => ?_
      obtain rfl := log_mem_dispatch he
      rfl
    exact congrArg (LogKind.rxFrame :: ·) hrest

theorem Mock.classesOf_processFrame (hbTimeoutMs : U32) (m : Mock) (f : ParsedFrame) :
    classesOf (m.processFrame hbTimeoutMs f).2 = [frameClass m.dup f] := by
  obtain hok | ⟨hok, hseen⟩ | hacc := m.frame_cases f
  · rw [processFrame_of_not_ok _ hok, frameClass, if_pos hok]
    rfl
  · rw [processFrame_of_seen _ hok hseen, frameClass, if_neg (not_not_intro hok), if_pos hseen]
    rfl
  · rw [processFrame_of_accepts _ hacc, frameClass, if_neg (not_not_intro hacc.1), if_neg hacc.2]
    have hrest : classesOf ((m.record f).dispatch hbTimeoutMs f).2 = [] := by
      refine classesOf_eq_nil fun e he => ?_
      obtain rfl | rfl | rfl | rfl := log_mem_dispatch hbTimeoutMs he <;> rfl
    exact congrArg (LogKind.rxFrame :: ·) hrest

/-! ### Masked frames -/

/-- An intact frame whose key was seen, but only on corrupt frames. -/
def Masked (pre : List ParsedFrame) (f : ParsedFrame) : Prop :=
  f.ok ∧ (∃ g ∈ pre, g.key = f.key) ∧ ∀ g ∈ pre, g.key = f.key → ¬ g.ok

instance (pre : List ParsedFrame) (f : ParsedFrame) : Decidable (Masked pre f) :=
  inferInstanceAs (Decidable (_ ∧ _ ∧ _))

/-- No frame of the list is masked; `pre` holds the frames before it. -/
def Unmasked : List ParsedFrame → List ParsedFrame → Prop
  | _, [] => True
  | pre, f :: fs => ¬ Masked pre f ∧ Unmasked (f :: pre) fs

instance decidableUnmasked : (pre fs : List ParsedFrame) → Decidable (Unmasked pre fs)
  | _, [] => .isTrue trivial
  | pre, f :: fs => @instDecidableAnd _ _ _ (decidableUnmasked (f :: pre) fs)

/-- The keys the two loops have recorded when they have read `pre`. -/
structure SameFrames (pre : List ParsedFrame) (el : EventLoop) (m : Mock) : Prop where
  live : ∀ k, k ∈ el.dup.seen ↔ ∃ g ∈ pre, g.ok ∧ g.key = k
  mock : ∀ k, k ∈ m.dup.seen ↔ ∃ g ∈ pre, g.key = k

namespace SameFrames
variable {pre : List ParsedFrame} {el : EventLoop} {m : Mock}

theorem step (h : SameFrames pre el m) (hbTimeoutMs : U32) (f : ParsedFrame) :
    SameFrames (f :: pre) (el.processFrame f).1 (m.processFrame hbTimeoutMs f).1 where
  live k := by
    rw [el.mem_processFrame_seen, h.live, or_comm]
    simp only [List.mem_cons, or_and_right, exists_or, exists_eq_left, eq_comm (a := k)]
  mock k := by
    rw [m.mem_processFrame_seen, h.mock, or_comm]
    simp only [List.mem_cons, or_and_right, exists_or, exists_eq_left, eq_comm (a := k)]

theorem frameClass_eq_iff_not_masked (h : SameFrames pre el m) (f : ParsedFrame) :
    frameClass el.dup f = frameClass m.dup f ↔ ¬ Masked pre f := by
  rw [frameClass_eq_iff, h.live, h.mock]
  refine ⟨fun hsame hmasked => ?_, fun hmasked hok => ⟨fun ⟨g, hg, hgok, hkey⟩ => ⟨g, hg, hkey⟩,
    fun hseen => ?_⟩⟩
  · obtain ⟨hok, hseen, hcorrupt⟩ := hmasked
    obtain ⟨g, hg, hgok, hkey⟩ := (hsame hok).mpr hseen
    exact hcorrupt g hg hkey hgok
  · by_contra hno
    refine hmasked ⟨hok, hseen, fun g hg hkey hgok => hno ⟨g, hg, hgok, hkey⟩⟩

theorem classesOf_eq_iff (h : SameFrames pre el m) (hbTimeoutMs : U32) (fs : List ParsedFrame) :
    classesOf (Machine.outputs EventLoop.processFrame el fs) =
        classesOf (Machine.outputs (Mock.processFrame hbTimeoutMs) m fs) ↔ Unmasked pre fs := by
  induction fs generalizing pre el m with
  | nil => exact iff_of_true rfl trivial
  | cons f fs ih =>
      rw [Machine.outputs_cons, Machine.outputs_cons, classesOf_append, classesOf_append,
        el.classesOf_processFrame, m.classesOf_processFrame, List.singleton_append,
        List.singleton_append, List.cons.injEq, h.frameClass_eq_iff_not_masked,
        ih (h.step hbTimeoutMs f), Unmasked]

theorem accepts_iff (h : SameFrames pre el m) {f : ParsedFrame} (hf : ¬ Masked pre f) :
    el.Accepts f ↔ m.Accepts f := by
  have hsame := frameClass_eq_iff.mp ((h.frameClass_eq_iff_not_masked f).mpr hf)
  exact and_congr_right fun hok => not_congr (hsame hok)

end SameFrames

/-! ### Transitions -/

/-- An accepted fault that is not critical, in a state where the event loop acts
on it. -/
def EventLoop.MinorFault (el : EventLoop) (f : ParsedFrame) : Prop :=
  el.Accepts f ∧ f.type = safetyFrameFaultEvent ∧ f.severity < 2 ∧ el.fsm = .healthy

instance (el : EventLoop) (f : ParsedFrame) : Decidable (el.MinorFault f) :=
  inferInstanceAs (Decidable (_ ∧ _ ∧ _ ∧ _))

/-- The event an accepted frame drives the mock with, if it is not late. -/
def mockFrameEvent (s : HealthState) (f : ParsedFrame) : Option HealthEvent :=
  if f.type = safetyFrameHeartbeat then some (EventLoop.heartbeatEvent s)
  else if f.type = safetyFrameFaultEvent ∧ 2 ≤ f.severity then some .criticalFault
  else none

theorem frameEvent_eq_mockFrameEvent {el : EventLoop} {f : ParsedFrame} (hacc : el.Accepts f)
    (hminor : ¬ el.MinorFault f) : frameEvent el.fsm f = mockFrameEvent el.fsm f := by
  unfold frameEvent mockFrameEvent
  split
  · rfl
  by_cases htype : f.type = safetyFrameFaultEvent
  · by_cases hcritical : 2 ≤ f.severity
    · rw [if_pos htype, if_pos hcritical, if_pos ⟨htype, hcritical⟩]
    · have hfsm : el.fsm ≠ .healthy := fun hfsm =>
        hminor ⟨hacc, htype, BitVec.not_le.mp hcritical, hfsm⟩
      rw [if_pos htype, if_neg hcritical, if_neg hfsm, if_neg fun h => hcritical h.2]
  · rw [if_neg htype, if_neg fun h => htype h.1]

namespace Mock
variable {hbTimeoutMs : U32}

def turnEvent (m : Mock) (f : ParsedFrame) : Option HealthEvent :=
  if m.Accepts f then mockFrameEvent m.fsm f else none

theorem dispatch_of_not_gap {m : Mock} {f : ParsedFrame}
    (hlate : f.type = safetyFrameHeartbeat → ¬ m.Gap hbTimeoutMs f) :
    (m.dispatch hbTimeoutMs f).1.fsm = (mockFrameEvent m.fsm f).elim m.fsm m.fsm.target ∧
      callsOf (m.dispatch hbTimeoutMs f).2 =
        (mockFrameEvent m.fsm f).toList.map m.fsm.apply := by
  unfold dispatch mockFrameEvent
  split
  · rename_i htype
    have hcheck : m.checkGap hbTimeoutMs f = (m, []) := by rw [checkGap, if_neg (hlate htype)]
    rw [onHeartbeat, hcheck]
    refine ⟨rfl, ?_⟩
    unfold beat
    dsimp only
    split <;> rfl
  split
  · rename_i htype
    unfold onFaultEvent
    by_cases hcritical : 2 ≤ f.severity
    · rw [if_pos hcritical, if_pos ⟨htype, hcritical⟩]
      exact ⟨rfl, rfl⟩
    · rw [if_neg hcritical, if_neg fun h => hcritical h.2]
      exact ⟨rfl, rfl⟩
  · rename_i htype
    rw [if_neg fun h => htype h.1]
    exact ⟨rfl, rfl⟩

theorem processFrame_of_not_late {m : Mock} {f : ParsedFrame} (hlate : ¬ m.Late hbTimeoutMs f) :
    (m.processFrame hbTimeoutMs f).1.fsm = (m.turnEvent f).elim m.fsm m.fsm.target ∧
      callsOf (m.processFrame hbTimeoutMs f).2 = (m.turnEvent f).toList.map m.fsm.apply := by
  obtain hok | ⟨hok, hseen⟩ | hacc := m.frame_cases f
  · rw [processFrame_of_not_ok _ hok, turnEvent, if_neg fun h => hok h.1]
    exact ⟨rfl, rfl⟩
  · rw [processFrame_of_seen _ hok hseen, turnEvent, if_neg fun h => h.2 hseen]
    exact ⟨rfl, rfl⟩
  · rw [processFrame_of_accepts _ hacc, turnEvent, if_pos hacc]
    exact dispatch_of_not_gap (m := m.record f) fun htype hgap => hlate ⟨⟨hacc, htype⟩, hgap⟩

theorem turnEvent_ne_heartbeatTimeout (m : Mock) (f : ParsedFrame) :
    m.turnEvent f ≠ some .heartbeatTimeout := by
  unfold turnEvent mockFrameEvent EventLoop.heartbeatEvent
  repeat' split
  all_goals nofun

theorem ne_heartbeatTimeout_of_not_late {m : Mock} {fs : List ParsedFrame}
    (hlate : Machine.Along (processFrame hbTimeoutMs) (fun m f => ¬ m.Late hbTimeoutMs f) m fs) :
    ∀ r ∈ transitionsOf (Machine.outputs (processFrame hbTimeoutMs) m fs),
      r.event ≠ .heartbeatTimeout := by
  intro r hr
  have happlied := (mem_transitionsOf.mp hr).1
  refine Machine.outputs_of_along
    (P := fun (effs : List Effect) _ => ∀ r, .applied r ∈ effs → r.event ≠ .heartbeatTimeout)
    (fun effs m f hP hlate r hr => ?_) nofun hlate r happlied
  obtain hr | hr := List.mem_append.mp hr
  · exact hP r hr
  · rw [← mem_callsOf, (processFrame_of_not_late hlate).2] at hr
    obtain ⟨event, hevent, rfl⟩ := List.mem_map.mp hr
    rintro rfl
    exact m.turnEvent_ne_heartbeatTimeout f (Option.mem_toList.mp hevent)

end Mock

theorem EventLoop.noMinorFault_of_transitions {el : EventLoop} {fs : List ParsedFrame}
    (h : ∀ r ∈ transitionsOf (Machine.outputs processFrame el fs), r.event ≠ .heartbeatTimeout) :
    Machine.Along processFrame (fun el f => ¬ el.MinorFault f) el fs := by
  refine along_of_transitions (fun el f hminor => ?_) h
  obtain ⟨hacc, htype, hseverity, hfsm⟩ := hminor
  have hne : f.type ≠ safetyFrameHeartbeat := by
    rw [htype]
    decide
  have hevent : el.stepEvent (.frame f) = some .heartbeatTimeout := by
    rw [stepEvent, if_pos hacc, frameEvent, if_neg hne, if_pos htype,
      if_neg (BitVec.not_le.mpr hseverity), if_pos hfsm]
  have hcalls := el.callsOf_step (.frame f)
  rw [hevent, hfsm] at hcalls
  have hmem : HealthState.healthy.apply .heartbeatTimeout ∈ callsOf (el.processFrame f).2 :=
    hcalls ▸ List.mem_singleton.mpr rfl
  exact ⟨_, mem_transitionsOf.mpr ⟨mem_callsOf.mp hmem, rfl⟩, rfl⟩

/-- In lockstep, as long as no frame is masked, late or a minor fault. -/
theorem transitionsOf_eq {hbTimeoutMs : U32} {pre fs : List ParsedFrame} {el : EventLoop}
    {m : Mock} (h : SameFrames pre el m) (hfsm : el.fsm = m.fsm) (hmasked : Unmasked pre fs)
    (hlate : Machine.Along (Mock.processFrame hbTimeoutMs) (fun m f => ¬ m.Late hbTimeoutMs f)
      m fs)
    (hminor : Machine.Along EventLoop.processFrame (fun el f => ¬ el.MinorFault f) el fs) :
    transitionsOf (Machine.outputs EventLoop.processFrame el fs) =
      transitionsOf (Machine.outputs (Mock.processFrame hbTimeoutMs) m fs) := by
  induction fs generalizing pre el m with
  | nil => rfl
  | cons f fs ih =>
      have hevent : el.stepEvent (.frame f) = m.turnEvent f := by
        by_cases hacc : el.Accepts f
        · have hacc' := (h.accepts_iff hmasked.1).mp hacc
          rw [EventLoop.stepEvent, if_pos hacc, Mock.turnEvent, if_pos hacc',
            frameEvent_eq_mockFrameEvent hacc hminor.1, hfsm]
        · have hacc' := fun h' => hacc ((h.accepts_iff hmasked.1).mpr h')
          rw [EventLoop.stepEvent, if_neg hacc, Mock.turnEvent, if_neg hacc']
      have hlive := el.step_fsm (.frame f)
      have hcalls := el.callsOf_step (.frame f)
      have hmock := Mock.processFrame_of_not_late hlate.1
      rw [hevent, hfsm, ← hmock.1] at hlive
      rw [hevent, hfsm, ← hmock.2] at hcalls
      rw [Machine.outputs_cons, Machine.outputs_cons, transitionsOf_append, transitionsOf_append,
        ih (h.step hbTimeoutMs f) hlive hmasked.2 hlate.2 hminor.2]
      exact congrArg (List.filter TransitionResult.valid · ++ _) hcalls

/-- Without late heartbeats and timers, live and mock mode classify the frames
alike and make the same transitions exactly if no frame is masked and no minor
fault reaches a `HEALTHY` machine. -/
theorem modes_agree_iff (hbTimeoutMs : U32) (fs : List ParsedFrame)
    (hlate : Machine.Along (Mock.processFrame hbTimeoutMs) (fun m f => ¬ m.Late hbTimeoutMs f)
      {} fs) :
    (classesOf (Machine.outputs EventLoop.processFrame {} fs) =
        classesOf (Machine.outputs (Mock.processFrame hbTimeoutMs) {} fs) ∧
      transitionsOf (Machine.outputs EventLoop.processFrame {} fs) =
        transitionsOf (Machine.outputs (Mock.processFrame hbTimeoutMs) {} fs)) ↔
      Unmasked [] fs ∧
        Machine.Along EventLoop.processFrame (fun el f => ¬ el.MinorFault f) {} fs := by
  have hstart : SameFrames [] {} {} := ⟨by simp, by simp⟩
  rw [hstart.classesOf_eq_iff hbTimeoutMs fs]
  refine and_congr_right fun hmasked =>
    ⟨fun htrans => ?_, transitionsOf_eq hstart rfl hmasked hlate⟩
  refine EventLoop.noMinorFault_of_transitions ?_
  rw [htrans]
  exact Mock.ne_heartbeatTimeout_of_not_late hlate

open EventLoop (heartbeatAt faultAt)

theorem modes_agree_critical :
    transitionsOf (Machine.outputs EventLoop.processFrame {}
        [heartbeatAt 0 0, heartbeatAt 0 0, faultAt 1 50 2, heartbeatAt 2 100]) =
      transitionsOf (Machine.outputs (Mock.processFrame 350) {}
        [heartbeatAt 0 0, heartbeatAt 0 0, faultAt 1 50 2, heartbeatAt 2 100]) :=
  ((modes_agree_iff 350 _ (by decide)).mpr (by decide)).2

/-- A heartbeat whose payload was damaged on the way. -/
def damagedHeartbeat : ParsedFrame :=
  .ofBytes ((sealedHeader safetyFrameHeartbeat 0 0 (safetyHeartbeatPayload 0 0)).toBytes ++
    safetyHeartbeatPayload 1 0)

/-- The intact frame behind a damaged one is a duplicate to the mock, and only
the event loop takes a minor fault for a timeout. -/
theorem modes_disagree :
    (Machine.Along (Mock.processFrame 350) (fun m f => ¬ m.Late 350 f) {}
        [damagedHeartbeat, heartbeatAt 0 0] ∧
      classesOf (Machine.outputs EventLoop.processFrame {} [damagedHeartbeat, heartbeatAt 0 0]) ≠
        classesOf (Machine.outputs (Mock.processFrame 350) {}
          [damagedHeartbeat, heartbeatAt 0 0])) ∧
    Machine.Along (Mock.processFrame 350) (fun m f => ¬ m.Late 350 f) {}
        [heartbeatAt 0 0, faultAt 1 50 1] ∧
      transitionsOf (Machine.outputs EventLoop.processFrame {} [heartbeatAt 0 0, faultAt 1 50 1]) ≠
        transitionsOf (Machine.outputs (Mock.processFrame 350) {}
          [heartbeatAt 0 0, faultAt 1 50 1]) := by
  decide +kernel

end SafetyCopro
