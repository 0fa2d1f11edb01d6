import SafetyCopro.Driver.Synth
import SafetyCopro.Firmware.SafetyProtocol
import SafetyCopro.Supervisor.LiveRun

/-!
The numbers on the frames the supervisor reads. The firmware and the driver
each number their own frames, the device hands both to the supervisor one
frame a read, intact and in order, and one duplicate detector sees them all.
-/

namespace SafetyCopro

/-- The arguments of a call of `safety_send_frame` that is not refused. -/
structure FirmwareFrame where
  type : U8
  payload : List U8
  nowMs : U32
  fits : payload.length ≤ safetyMaxPayload
deriving DecidableEq

def FirmwareFrame.IsCriticalFault (s : FirmwareFrame) : Prop :=
  s.type = safetyFrameFaultEvent ∧ 8 ≤ s.payload.length ∧ byteAt s.payload 1 = 2

inductive LinkInput
  | firmware (s : FirmwareFrame)
  | driver (s : Synth) (nowMs : U32)
  | heartbeatTimeout (nowMs : I64)
  | report (rep : RecoveryReport U16)
deriving DecidableEq

structure Link where
  txSequence : Nat := 0
  synthSeq : U16 := 0
  buf : List U8 := []
  loop : EventLoop := {}
deriving DecidableEq

namespace Link

def deliver (l : Link) : Option (List U8) → Link × List Effect
  | none => (l, [])
  | some data =>
      let (buf, loop, effs) := EventLoop.handleReadable l.buf l.loop data
      ({ l with buf := buf, loop := loop }, effs)

def step (l : Link) : LinkInput → Link × List Effect
  | .firmware s =>
      let (txSequence, out) := safetySendFrame l.txSequence s.type s.payload s.nowMs
      deliver { l with txSequence := txSequence } out
  | .driver s nowMs =>
      let (synthSeq, out) := s.push l.synthSeq nowMs
      deliver { l with synthSeq := synthSeq } out
  | .heartbeatTimeout nowMs =>
      let (loop, effs) := l.loop.onHeartbeatTimeout nowMs
      ({ l with loop := loop }, effs)
  | .report rep =>
      let (loop, effs) := l.loop.drainReport rep
      ({ l with loop := loop }, effs)

def run (ins : List LinkInput) : Link := Machine.after step {} ins

def firmwareFrame (l : Link) (s : FirmwareFrame) : ParsedFrame :=
  .packed s.type (BitVec.ofNat 16 l.txSequence) s.nowMs s.payload

def driverFrame (l : Link) (s : Synth) (nowMs : U32) : ParsedFrame :=
  .packed s.type l.synthSeq nowMs s.payload

@[simp] theorem firmwareFrame_ok (l : Link) (s : FirmwareFrame) : (l.firmwareFrame s).ok := rfl

@[simp] theorem driverFrame_ok (l : Link) (s : Synth) (nowMs : U32) :
    (l.driverFrame s nowMs).ok := rfl

theorem step_firmware {l : Link} (hbuf : l.buf = []) (s : FirmwareFrame) :
    l.step (.firmware s) =
      ({ l with
          txSequence := l.txSequence + 1
          loop := (l.loop.processFrame (l.firmwareFrame s)).1 },
        (l.loop.processFrame (l.firmwareFrame s)).2) := by
  obtain ⟨txSequence, synthSeq, buf, loop⟩ := l
  obtain rfl : buf = [] := hbuf
  simp only [step, safetySendFrame_eq _ _ _ s.fits, deliver,
    EventLoop.handleReadable_packFrame _ _ _ _ s.fits, firmwareFrame]

theorem step_driver {l : Link} (hbuf : l.buf = []) (s : Synth) (nowMs : U32) :
    l.step (.driver s nowMs) =
      ({ l with
          synthSeq := l.synthSeq + 1
          loop := (l.loop.processFrame (l.driverFrame s nowMs)).1 },
        (l.loop.processFrame (l.driverFrame s nowMs)).2) := by
  obtain ⟨txSequence, synthSeq, buf, loop⟩ := l
  obtain rfl : buf = [] := hbuf
  simp only [step, Synth.push_eq, deliver,
    EventLoop.handleReadable_packFrame _ _ _ _ s.payload_fits, driverFrame]

end Link

/-! ### Numbered frames -/

/-- The types of the frames of each sender, in the order they were sent. -/
def firmwareTypes (ins : List LinkInput) : List U8 :=
  ins.filterMap fun
    | .firmware s => some s.type
    | _ => none

def driverTypes (ins : List LinkInput) : List U8 :=
  ins.filterMap fun
    | .driver s _ => some s.type
    | _ => none

/-- Some frame of the list, numbered by its position, has the key `k`. -/
def Numbered (types : List U8) (k : U8 × U16) : Prop :=
  ∃ i : Nat, types[i]? = some k.1 ∧ k.2 = BitVec.ofNat 16 i

theorem numbered_snoc (types : List U8) (type : U8) (k : U8 × U16) :
    Numbered (types ++ [type]) k ↔
      Numbered types k ∨ k = (type, BitVec.ofNat 16 types.length) := by
  have hget : ∀ i : Nat, (types ++ [type])[i]? = some k.1 ↔
      types[i]? = some k.1 ∨ i = types.length ∧ k.1 = type := by grind
  simp only [Numbered, hget, or_and_right, exists_or, and_assoc, exists_eq_left, Prod.ext_iff]

theorem not_numbered_nil (k : U8 × U16) : ¬ Numbered [] k := by
  rintro ⟨i, hi, -⟩
  simp at hi

namespace Link

/-- What the link knows after the inputs `ins`. -/
structure Tracks (ins : List LinkInput) (l : Link) : Prop where
  buf : l.buf = []
  txSequence : l.txSequence = (firmwareTypes ins).length
  synthSeq : l.synthSeq = BitVec.ofNat 16 (driverTypes ins).length
  seen : ∀ k, k ∈ l.loop.dup.seen ↔ Numbered (firmwareTypes ins) k ∨ Numbered (driverTypes ins) k

theorem Tracks.step {ins : List LinkInput} {l : Link} (h : Tracks ins l) (i : LinkInput) :
    Tracks (ins ++ [i]) (l.step i).1 := by
  obtain ⟨hbuf, htx, hsynth, hseen⟩ := h
  cases i with
  | firmware s =>
      have hfw : firmwareTypes (ins ++ [.firmware s]) = firmwareTypes ins ++ [s.type] := by
        simp [firmwareTypes]
      have hdr : driverTypes (ins ++ [.firmware s]) = driverTypes ins := by simp [driverTypes]
      have hkey : (l.firmwareFrame s).key = (s.type, BitVec.ofNat 16 (firmwareTypes ins).length) :=
        htx ▸ rfl
      rw [step_firmware hbuf]
      refine ⟨hbuf, by simp [hfw, htx], hdr ▸ hsynth, fun k => ?_⟩
      rw [EventLoop.mem_processFrame_seen, hseen, hfw, hdr, numbered_snoc, hkey,
        and_iff_right (l.firmwareFrame_ok s), or_right_comm]
  | driver s nowMs =>
      have hfw : firmwareTypes (ins ++ [.driver s nowMs]) = firmwareTypes ins := by
        simp [firmwareTypes]
      have hdr : driverTypes (ins ++ [.driver s nowMs]) = driverTypes ins ++ [s.type] := by
        simp [driverTypes]
      have hkey : (l.driverFrame s nowMs).key =
          (s.type, BitVec.ofNat 16 (driverTypes ins).length) := hsynth ▸ rfl
      rw [step_driver hbuf]
      refine ⟨hbuf, hfw ▸ htx, by simp [hdr, hsynth, BitVec.ofNat_add], fun k => ?_⟩
      rw [EventLoop.mem_processFrame_seen, hseen, hfw, hdr, numbered_snoc, hkey,
        and_iff_right (l.driverFrame_ok s nowMs), or_assoc]
  | heartbeatTimeout nowMs =>
      have hfw : firmwareTypes (ins ++ [.heartbeatTimeout nowMs]) = firmwareTypes ins := by
        simp [firmwareTypes]
      have hdr : driverTypes (ins ++ [.heartbeatTimeout nowMs]) = driverTypes ins := by
        simp [driverTypes]
      exact ⟨hbuf, hfw ▸ htx, hdr ▸ hsynth, by simpa [Link.step, hfw, hdr] using hseen⟩
  | report rep =>
      have hfw : firmwareTypes (ins ++ [.report rep]) = firmwareTypes ins := by
        simp [firmwareTypes]
      have hdr : driverTypes (ins ++ [.report rep]) = driverTypes ins := by simp [driverTypes]
      exact ⟨hbuf, hfw ▸ htx, hdr ▸ hsynth, by simpa [Link.step, hfw, hdr] using hseen⟩

theorem tracks_run (ins : List LinkInput) : Tracks ins (run ins) :=
  Machine.after_history (fun _ i _ h => h.step i)
    ⟨rfl, rfl, rfl, fun k => by simp [firmwareTypes, driverTypes, not_numbered_nil]⟩ ins

/-- A firmware frame is new to the supervisor unless an earlier frame of its
type, of either sender, has the same number modulo `2 ^ 16`. -/
theorem accepts_firmwareFrame_iff (ins : List LinkInput) (s : FirmwareFrame) :
    (run ins).loop.Accepts ((run ins).firmwareFrame s) ↔
      ¬ Numbered (firmwareTypes ins) (s.type, BitVec.ofNat 16 (firmwareTypes ins).length) ∧
      ¬ Numbered (driverTypes ins) (s.type, BitVec.ofNat 16 (firmwareTypes ins).length) := by
  have h := tracks_run ins
  have hkey : ((run ins).firmwareFrame s).key =
      (s.type, BitVec.ofNat 16 (firmwareTypes ins).length) := h.txSequence ▸ rfl
  rw [EventLoop.Accepts, and_iff_right (firmwareFrame_ok _ s), hkey, h.seen,
    not_or]

theorem step_run_firmware (ins : List LinkInput) (s : FirmwareFrame) :
    ((run ins).step (.firmware s)).2 =
      ((run ins).loop.processFrame ((run ins).firmwareFrame s)).2 := by
  rw [step_firmware (tracks_run ins).buf]

def ReportsDuplicate (l : Link) (i : LinkInput) : Prop :=
  ∃ e ∈ logOf (l.step i).2, e.kind = .duplicate

theorem reportsDuplicate_iff (ins : List LinkInput) (s : FirmwareFrame) :
    (run ins).ReportsDuplicate (.firmware s) ↔
      ¬ (run ins).loop.Accepts ((run ins).firmwareFrame s) := by
  rw [ReportsDuplicate, step_run_firmware, EventLoop.duplicate_logged_iff (firmwareFrame_ok _ s),
    EventLoop.Accepts, and_iff_right (firmwareFrame_ok _ s), not_not]

/-! ### Heartbeats -/

structure HeartbeatTaken (l : Link) (s : FirmwareFrame) : Prop where
  rearms : .armHeartbeatTimer ∈ (l.step (.firmware s)).2
  drives : .applied (l.loop.fsm.apply (EventLoop.heartbeatEvent l.loop.fsm)) ∈
    (l.step (.firmware s)).2
  acks : .sendOut (buildAck l.loop.txSeq s.nowMs (BitVec.ofNat 16 l.txSequence)) ∈
    (l.step (.firmware s)).2
  fresh : ¬ l.ReportsDuplicate (.firmware s)

theorem heartbeatTaken_iff_accepts (ins : List LinkInput) {s : FirmwareFrame}
    (hs : s.type = safetyFrameHeartbeat) :
    (run ins).HeartbeatTaken s ↔ (run ins).loop.Accepts ((run ins).firmwareFrame s) := by
  refine ⟨fun h => ?_, fun hacc => ?_⟩
  · exact Decidable.not_not.mp (mt (reportsDuplicate_iff ins s).mpr h.fresh)
  · have hfresh : ¬ (run ins).ReportsDuplicate (.firmware s) := by
      rwa [reportsDuplicate_iff, not_not]
    have heffs : ((run ins).step (.firmware s)).2 =
        .log (EventLoop.rxFrameEvent ((run ins).firmwareFrame s)) ::
          (((run ins).loop.record ((run ins).firmwareFrame s)).onHeartbeat
            ((run ins).firmwareFrame s)).2 := by
      rw [step_run_firmware, EventLoop.processFrame_of_accepts hacc, EventLoop.dispatch,
        if_pos (by exact hs)]
    refine ⟨?_, ?_, ?_, hfresh⟩ <;> rw [heffs] <;> simp [EventLoop.onHeartbeat] <;> rfl

/-- Driver frames never stand in the way of a heartbeat. -/
theorem heartbeatTaken_iff (ins : List LinkInput) {s : FirmwareFrame}
    (hs : s.type = safetyFrameHeartbeat) :
    (run ins).HeartbeatTaken s ↔
      ¬ Numbered (firmwareTypes ins)
        (safetyFrameHeartbeat, BitVec.ofNat 16 (firmwareTypes ins).length) := by
  have hdriver : ¬ Numbered (driverTypes ins)
      (safetyFrameHeartbeat, BitVec.ofNat 16 (firmwareTypes ins).length) := by
    rintro ⟨i, hi, -⟩
    obtain ⟨x, -, hx⟩ := List.mem_filterMap.mp (List.mem_of_getElem? hi)
    cases x with
    | driver d nowMs => exact d.type_ne_heartbeat (Option.some.inj hx)
    | _ => cases hx
  rw [heartbeatTaken_iff_accepts ins hs, accepts_firmwareFrame_iff, hs, and_iff_left hdriver]

theorem firmwareTypes_append (ins post : List LinkInput) :
    firmwareTypes (ins ++ post) = firmwareTypes ins ++ firmwareTypes post :=
  List.filterMap_append

theorem exists_firmware_of_getElem? {ins : List LinkInput} {n : Nat} {type : U8}
    (h : (firmwareTypes ins)[n]? = some type) :
    ∃ pre s post, ins = pre ++ .firmware s :: post ∧ s.type = type ∧
      (firmwareTypes pre).length = n := by
  obtain ⟨hn, hget⟩ := List.getElem?_eq_some_iff.mp h
  have hsplit : firmwareTypes ins =
      (firmwareTypes ins).take n ++ type :: (firmwareTypes ins).drop (n + 1) := by
    rw [← hget, List.getElem_cons_drop, List.take_append_drop]
  obtain ⟨pre, rest, rfl, hpre, hrest⟩ := List.filterMap_eq_append_iff.mp hsplit
  obtain ⟨skip, x, post, rfl, hskip, hx, -⟩ := List.filterMap_eq_cons_iff.mp hrest
  cases x with
  | firmware s =>
      refine ⟨pre ++ skip, s, post, by simp, Option.some.inj hx, ?_⟩
      have hnone : firmwareTypes skip = [] := List.filterMap_eq_nil_iff.mpr hskip
      rw [firmwareTypes_append, hnone, List.append_nil, firmwareTypes, hpre, List.length_take]
      exact Nat.min_eq_left (Nat.le_of_lt hn)
  | _ => cases hx

/-- Every heartbeat of a run is taken as fresh exactly when no two of them have
numbers that agree modulo `2 ^ 16`. -/
theorem heartbeats_taken_iff (ins : List LinkInput) :
    (∀ pre s post, ins = pre ++ .firmware s :: post → s.type = safetyFrameHeartbeat →
      (run pre).HeartbeatTaken s) ↔
    ∀ i j, i < j → (firmwareTypes ins)[i]? = some safetyFrameHeartbeat →
      (firmwareTypes ins)[j]? = some safetyFrameHeartbeat → i % 2 ^ 16 ≠ j % 2 ^ 16 := by
  refine ⟨fun h i j hij hi hj hmod => ?_, fun h pre s post hsplit hs => ?_⟩
  · obtain ⟨pre, s, post, rfl, hs, rfl⟩ := exists_firmware_of_getElem? hj
    refine (heartbeatTaken_iff pre hs).mp (h pre s post rfl hs) ⟨i, ?_, ?_⟩
    · rwa [firmwareTypes_append, List.getElem?_append_left hij] at hi
    · exact BitVec.eq_of_toNat_eq (by simpa using hmod.symm)
  · rw [heartbeatTaken_iff pre hs]
    rintro ⟨i, hi, hnum⟩
    have hlt : i < (firmwareTypes pre).length := (List.getElem?_eq_some_iff.mp hi).1
    have hmod : (firmwareTypes pre).length % 2 ^ 16 = i % 2 ^ 16 := by
      simpa using congrArg BitVec.toNat hnum
    refine h i (firmwareTypes pre).length hlt ?_ ?_ hmod.symm
    · rw [hsplit, firmwareTypes_append, List.getElem?_append_left hlt, hi]
    · rw [hsplit, firmwareTypes_append]
      simp [firmwareTypes, hs]

def heartbeatSend : FirmwareFrame where
  type := safetyFrameHeartbeat
  payload := safetyHeartbeatPayload 100 0
  nowMs := 100
  fits := by decide

/-- The heartbeat with number `2 ^ 16` is sent under the number 0 again, and the
supervisor takes it for a duplicate of the first one. -/
theorem heartbeat_wrapped_not_taken :
    ¬ (run (List.replicate (2 ^ 16) (.firmware heartbeatSend))).HeartbeatTaken heartbeatSend ∧
    (run (List.replicate (2 ^ 16) (.firmware heartbeatSend))).ReportsDuplicate
      (.firmware heartbeatSend) := by
  have htypes : firmwareTypes (List.replicate (2 ^ 16) (.firmware heartbeatSend)) =
      List.replicate (2 ^ 16) safetyFrameHeartbeat := List.filterMap_replicate_of_some rfl
  have hnot : ¬ (run (List.replicate (2 ^ 16) (.firmware heartbeatSend))).HeartbeatTaken
      heartbeatSend := by
    rw [heartbeatTaken_iff _ rfl, not_not, htypes, List.length_replicate]
    exact ⟨0, by rw [List.getElem?_replicate, if_pos (by decide)], by decide⟩
  refine ⟨hnot, ?_⟩
  rwa [reportsDuplicate_iff, ← heartbeatTaken_iff_accepts _ rfl]

/-! ### Critical faults -/

structure CriticalFaultTaken (l : Link) (s : FirmwareFrame) : Prop where
  drives : .applied (l.loop.fsm.apply .criticalFault) ∈ (l.step (.firmware s)).2
  fresh : ¬ l.ReportsDuplicate (.firmware s)

theorem criticalFaultTaken_iff_accepts (ins : List LinkInput) {s : FirmwareFrame}
    (hs : s.IsCriticalFault) :
    (run ins).CriticalFaultTaken s ↔ (run ins).loop.Accepts ((run ins).firmwareFrame s) := by
  refine ⟨fun h => ?_, fun hacc => ⟨?_, ?_⟩⟩
  · exact Decidable.not_not.mp (mt (reportsDuplicate_iff ins s).mpr h.fresh)
  · have hcritical : ((run ins).firmwareFrame s).IsCriticalFault :=
      ⟨hs.1, hs.2.1, Nat.le_of_eq (congrArg BitVec.toNat hs.2.2.symm)⟩
    have hcalls := (run ins).loop.callsOf_step (.frame ((run ins).firmwareFrame s))
    rw [EventLoop.stepEvent, if_pos hacc, frameEvent_of_isCriticalFault hcritical] at hcalls
    rw [step_run_firmware, ← mem_callsOf]
    exact hcalls ▸ List.mem_singleton.mpr rfl
  · rwa [reportsDuplicate_iff, not_not]

theorem numbered_lt_iff {types : List U8} (h : types.length ≤ 2 ^ 16) {n : Nat}
    (hn : n < 2 ^ 16) (type : U8) :
    Numbered types (type, BitVec.ofNat 16 n) ↔ types[n]? = some type := by
  refine ⟨fun ⟨i, hi, hnum⟩ => ?_, fun hi => ⟨n, hi, rfl⟩⟩
  have hlt : i < types.length := (List.getElem?_eq_some_iff.mp hi).1
  have hmod : n % 2 ^ 16 = i % 2 ^ 16 := by simpa using congrArg BitVec.toNat hnum
  have hni : n = i := by omega
  rw [hni, hi]

/-- With fewer than `2 ^ 16` frames of either sender, every critical fault of
the firmware drives the machine exactly when none of them has the number of an
earlier fault event of the driver. -/
theorem criticalFaults_taken_iff {ins : List LinkInput}
    (hfw : (firmwareTypes ins).length < 2 ^ 16) (hdr : (driverTypes ins).length < 2 ^ 16) :
    (∀ pre s post, ins = pre ++ .firmware s :: post → s.IsCriticalFault →
      (run pre).CriticalFaultTaken s) ↔
    ∀ pre s post, ins = pre ++ .firmware s :: post → s.IsCriticalFault →
      (driverTypes pre)[(firmwareTypes pre).length]? ≠ some safetyFrameFaultEvent := by
  refine forall_congr' fun pre => forall_congr' fun s => forall_congr' fun post => ?_
  refine imp_congr_right fun hsplit => imp_congr_right fun hs => ?_
  have hfwlen : (firmwareTypes pre).length < 2 ^ 16 := by
    rw [hsplit, firmwareTypes_append, List.length_append] at hfw
    omega
  have hdrlen : (driverTypes pre).length < 2 ^ 16 := by
    rw [hsplit, driverTypes, List.filterMap_append, List.length_append] at hdr
    exact Nat.lt_of_le_of_lt (Nat.le_add_right _ _) hdr
  rw [criticalFaultTaken_iff_accepts pre hs, accepts_firmwareFrame_iff,
    numbered_lt_iff (Nat.le_of_lt hfwlen) hfwlen, numbered_lt_iff (Nat.le_of_lt hdrlen) hfwlen,
    hs.1, List.getElem?_eq_none (Nat.le_refl _)]
  simp

def criticalSend : FirmwareFrame where
  type := safetyFrameFaultEvent
  payload := safetyFaultEventPayload safetyFaultCritical 2 3 400
  nowMs := 400
  fits := by decide

theorem criticalSend_isCriticalFault : criticalSend.IsCriticalFault :=
  ⟨rfl, by decide, by decide⟩

def besideReport : List LinkInput :=
  [.driver (.recoveryReport 1 0 300) 300, .firmware criticalSend]

/-- A recovery report of the driver with the same number is no obstacle. -/
theorem criticalFaults_taken_beside_report :
    (run [.driver (.recoveryReport 1 0 300) 300]).CriticalFaultTaken criticalSend := by
  have hnone : ∀ pre s post, besideReport = pre ++ .firmware s :: post → s.IsCriticalFault →
      (driverTypes pre)[(firmwareTypes pre).length]? ≠ some safetyFrameFaultEvent := by
    intro pre s post hsplit _ hget
    have hmem : safetyFrameFaultEvent ∈ driverTypes besideReport := by
      rw [hsplit, driverTypes, List.filterMap_append]
      exact List.mem_append_left _ (List.mem_of_getElem? hget)
    exact absurd hmem (by decide)
  exact (criticalFaults_taken_iff (by decide) (by decide)).mpr hnone _ _ [] rfl
    criticalSend_isCriticalFault

/-- Two expiries of the driver's watchdog. Each makes a fault event and then a
recovery report, so the second fault event has the number 2. -/
def twoTimeouts : List LinkInput :=
  [.firmware heartbeatSend, .driver (.faultEvent safetyFaultTaskHang 1 1 600) 600,
    .driver (.recoveryReport 1 3 600) 600, .firmware heartbeatSend,
    .driver (.faultEvent safetyFaultTaskHang 1 1 1200) 1200]

/-- The third frame of the firmware, a critical fault, has the number 2 too, and
the supervisor drops it. -/
theorem criticalFault_after_timeouts_dropped :
    criticalSend.IsCriticalFault ∧
    (run twoTimeouts).ReportsDuplicate (.firmware criticalSend) ∧
    ¬ (run twoTimeouts).CriticalFaultTaken criticalSend := by
  have hdropped : ¬ (run twoTimeouts).loop.Accepts
      ((run twoTimeouts).firmwareFrame criticalSend) := by
    rw [accepts_firmwareFrame_iff]
    exact fun h => h.2 ⟨2, rfl, rfl⟩
  refine ⟨criticalSend_isCriticalFault, (reportsDuplicate_iff _ _).mpr hdropped, ?_⟩
  rwa [criticalFaultTaken_iff_accepts _ criticalSend_isCriticalFault]

end Link

end SafetyCopro
