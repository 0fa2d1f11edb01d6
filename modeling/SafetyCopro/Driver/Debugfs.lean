import SafetyCopro.Driver.Calls
import SafetyCopro.Lib.Machine
import SafetyCopro.Lib.Ring
import SafetyCopro.Lib.Text

/-!
The timeline of the driver and the debugfs file that shows it,
`safety_copro_debugfs.c`. A reset of the statistics rewinds the two indices and
leaves the entries where they are, so what is shown rests on the indices alone.
-/

namespace SafetyCopro

/-- A `%-*s` of `seq_printf`. -/
def leftJustified (width : Nat) (field : Text) : Text :=
  field ++ List.replicate (width - field.length) (Text.ofChar ' ')

def tlEventName : SafetyTimelineEvent → Text
  | .frameRx => Text.lit "FRAME_RX"
  | .frameDrop => Text.lit "FRAME_DROP"
  | .heartbeat => Text.lit "HEARTBEAT"
  | .timeout => Text.lit "TIMEOUT"
  | .recovery => Text.lit "RECOVERY"
  | .faultInject => Text.lit "FAULT_INJECT"
  | .none => Text.lit "NONE"

def timelineRow (ts event seq : Text) : Text :=
  leftJustified 18 ts ++ [Text.ofChar ' '] ++ leftJustified 14 event ++ [Text.ofChar ' '] ++
    leftJustified 6 seq ++ [Text.newline]

def timelineHeading : Text := timelineRow (Text.lit "ts_ns") (Text.lit "event") (Text.lit "seq")

def timelineLine (e : SafetyTimelineEntry) : Text :=
  timelineRow (Text.decimalNat e.tsNs.toNat) (tlEventName e.event) (Text.decimalNat e.seq.toNat)

namespace SafetyCoproDev

/-- `timeline_show`: the lines it prints. -/
def timelineShow (dev : SafetyCoproDev) : List Text :=
  let head := dev.timelineHead
  let filled := dev.timelineFilled
  let snap := dev.timeline
  if filled = 0 then [timelineHeading]
  else
    let start := if filled < safetyTimelineDepth then 0 else head
    timelineHeading ::
      (List.range filled).map fun i =>
        timelineLine (snap.getD ((start + i) % safetyTimelineDepth) {})

end SafetyCoproDev

/-- What happens to the timeline: an event is recorded, or the statistics are
reset. -/
inductive TimelineOp
  | record (event : SafetyTimelineEvent) (seq : U16) (tsNs : U64)
  | resetStats
deriving DecidableEq, Repr

namespace TimelineOp

def apply (dev : SafetyCoproDev) : TimelineOp → SafetyCoproDev
  | .record event seq tsNs => dev.timelineRecordLocked event seq tsNs
  | .resetStats => dev.iocResetStats

/-- The entries recorded since the last reset. -/
def log (entries : List SafetyTimelineEntry) : TimelineOp → List SafetyTimelineEntry
  | .record event seq tsNs => entries ++ [⟨tsNs, event, seq⟩]
  | .resetStats => []

end TimelineOp

def sinceReset (ops : List TimelineOp) : List SafetyTimelineEntry := ops.foldl TimelineOp.log []

/-- The names tell the events apart. -/
theorem tlEventName_injective : Function.Injective tlEventName := by
  intro a b h
  cases a <;> cases b <;> first | rfl | exact absurd h (by decide)

namespace SafetyCoproDev
variable {log : List SafetyTimelineEntry} {dev : SafetyCoproDev}

/-- The timeline as a ring that holds the end of a log. -/
def Recorded (log : List SafetyTimelineEntry) (dev : SafetyCoproDev) : Prop :=
  Ring.Holds safetyTimelineDepth log dev.timeline dev.timelineHead dev.timelineFilled

theorem recorded_init {hbTimeoutMs : U32} {fifoDepth cpus : Nat}
    (h : safetyCoproInit hbTimeoutMs fifoDepth cpus = some dev) : Recorded [] dev := by
  dsimp only [safetyCoproInit] at h
  generalize roundupPowOfTwo _ = depth at h
  split at h
  · cases h
  · obtain rfl := Option.some.inj h
    exact .empty List.length_replicate

theorem Recorded.record (h : Recorded log dev) (event : SafetyTimelineEvent) (seq : U16)
    (tsNs : U64) : Recorded (log ++ [⟨tsNs, event, seq⟩])
      (dev.timelineRecordLocked event seq tsNs) :=
  h.push (by decide) _

theorem Recorded.apply (h : Recorded log dev) (op : TimelineOp) :
    Recorded (op.log log) (op.apply dev) := by
  cases op with
  | record event seq tsNs => exact h.record event seq tsNs
  | resetStats => exact Ring.Holds.reset h

theorem Recorded.run (h : Recorded log dev) (ops : List TimelineOp) :
    Recorded (ops.foldl TimelineOp.log log) (ops.foldl TimelineOp.apply dev) := by
  induction ops generalizing log dev with
  | nil => exact h
  | cons op ops ih => exact ih (h.apply op)

theorem Recorded.head_lt (h : Recorded log dev) : dev.timelineHead < safetyTimelineDepth :=
  Ring.Holds.head_lt h (by decide)

theorem Recorded.timelineShow_eq (h : Recorded log dev) :
    dev.timelineShow =
      timelineHeading :: (Ring.recent safetyTimelineDepth log).map timelineLine := by
  have hread := Ring.Holds.read h {}
  rw [← hread, List.map_map]
  unfold timelineShow
  dsimp only
  split
  · rename_i hnone
    rw [hnone]
    rfl
  · rfl

/-- After any sequence of recorded events and resets the file shows the last
events since the last reset, as many as the ring can hold, each on its line. -/
theorem timelineShow_sinceReset {hbTimeoutMs : U32} {fifoDepth cpus : Nat}
    (hinit : safetyCoproInit hbTimeoutMs fifoDepth cpus = some dev) (ops : List TimelineOp) :
    (ops.foldl TimelineOp.apply dev).timelineShow =
        timelineHeading :: (Ring.recent 64 (sinceReset ops)).map timelineLine ∧
      (Ring.recent 64 (sinceReset ops)).length = min (sinceReset ops).length 64 ∧
      (ops.foldl TimelineOp.apply dev).timelineHead < 64 ∧
      Function.Injective tlEventName := by
  have hrun := (recorded_init hinit).run ops
  exact ⟨hrun.timelineShow_eq, Ring.length_recent 64 _, hrun.head_lt, tlEventName_injective⟩

/-- A timeout and a recovery, with a reset between. -/
theorem timelineShow_timeout_reset_recovery :
    ∃ dev, safetyCoproInit 0 0 1 = some dev ∧
      ([.record .timeout 0 5, .resetStats, .record .recovery 0 9].foldl TimelineOp.apply
        dev).timelineShow = [timelineHeading, timelineLine ⟨9, .recovery, 0⟩] :=
  ⟨_, rfl, (timelineShow_sinceReset (show safetyCoproInit 0 0 1 = some _ from rfl)
    [.record .timeout 0 5, .resetStats, .record .recovery 0 9]).1⟩

/-! ### The calls of the driver -/

section Calls
variable {ctx : Context}

theorem recorded_congr {dev' : SafetyCoproDev} (h : Recorded log dev)
    (htimeline : dev'.timeline = dev.timeline) (hhead : dev'.timelineHead = dev.timelineHead)
    (hfilled : dev'.timelineFilled = dev.timelineFilled) : Recorded log dev' := by
  rw [Recorded, htimeline, hhead, hfilled]
  exact h

theorem Recorded.recordProtoError (h : Recorded log dev) (vres : SafetyValidateResult) :
    Recorded log (dev.recordProtoError vres) := by
  cases vres <;> exact recorded_congr h rfl rfl rfl

theorem Recorded.checked (h : Recorded log dev) (frame : List U8) :
    Recorded log (dev.checked frame) := by
  rw [SafetyCoproDev.checked]
  split
  · exact h.recordProtoError .badChecksum
  · exact h

theorem Recorded.enqueueRx (h : Recorded log dev) (frame : List U8) (seq : U16)
    (event : SafetyTimelineEvent) :
    Recorded (log ++ [⟨ctx.pushNs, event, seq⟩]) (dev.enqueueRx ctx frame seq event) :=
  Ring.Holds.push h (by decide) _

theorem Recorded.offerSynth (h : Recorded log dev) (s : Synth) :
    ∃ more, Recorded (log ++ more) (dev.offerSynth ctx s).1 := by
  rw [SafetyCoproDev.offerSynth]
  split
  · exact ⟨_, Ring.Holds.push h (by decide) _⟩
  · exact ⟨[], by rw [List.append_nil]; exact recorded_congr h rfl rfl rfl⟩

/-- A call adds entries to the log, or resets it. -/
theorem Recorded.called (h : Recorded log dev) {op : DevOp} {dev' : SafetyCoproDev}
    {trace : List TraceEvent} (hcall : Called dev ctx op dev' trace) :
    (op = .ioctl .resetStats ∧ Recorded [] dev') ∨ ∃ more, Recorded (log ++ more) dev' := by
  have hkept : ∀ {dev' : SafetyCoproDev}, Recorded log dev' →
      (op = .ioctl .resetStats ∧ Recorded [] dev') ∨ ∃ more, Recorded (log ++ more) dev' :=
    fun h => Or.inr ⟨[], by rwa [List.append_nil]⟩
  cases hcall with
  | kept hop htrace => exact hkept h
  | refused hop hvres => exact hkept (h.recordProtoError _)
  | written hwritable hroom => exact Or.inr ⟨_, Ring.Holds.push h (by decide) _⟩
  | writeDropped seq type hfull => exact hkept (recorded_congr h rfl rfl rfl)
  | read count nonblock fault =>
      rw [fifoPopFrame]
      split <;> exact hkept (recorded_congr h rfl rfl rfl)
  | popped fault =>
      rw [fifoPopTxFrame]
      split <;> exact hkept (recorded_congr h rfl rfl rfl)
  | reset => exact Or.inl ⟨rfl, Ring.Holds.reset h⟩
  | timeoutSet hms => exact hkept (recorded_congr h rfl rfl rfl)
  | forced => exact hkept (recorded_congr h rfl rfl rfl)
  | injected faultType =>
      have hfault : Recorded log (dev.injected ctx faultType) := recorded_congr h rfl rfl rfl
      exact Or.inr (hfault.offerSynth _)
  | beat hbeat hroom =>
      exact Or.inr ⟨_, recorded_congr (h.enqueueRx _ _ _) rfl rfl rfl⟩
  | pushed hframe hbeat event hroom => exact Or.inr ⟨_, (h.checked _).enqueueRx _ _ _⟩
  | pushDropped hframe seq type hfull =>
      exact hkept (recorded_congr (h.checked _) rfl rfl rfl)
  | expired harmed =>
      have hrecord : Recorded (log ++ [⟨ctx.recordNs, .timeout, 0⟩]) (dev.expired ctx) :=
        Ring.Holds.push h (by decide) _
      obtain ⟨more, hmore⟩ := hrecord.offerSynth (timeoutFault ctx)
      rw [List.append_assoc] at hmore
      exact Or.inr ⟨_, recorded_congr hmore rfl rfl rfl⟩
  | recovered hqueued =>
      have hrecord : Recorded (log ++ [⟨ctx.recordNs, .recovery, 0⟩]) (dev.recovering ctx) :=
        Ring.Holds.push h (by decide) _
      obtain ⟨more, hmore⟩ := hrecord.offerSynth (recoveryNotice ctx)
      rw [List.append_assoc] at hmore
      exact Or.inr ⟨_, hmore⟩

end Calls

/-- In every state a run of the driver reaches, the file shows the end of some log. -/
theorem timelineShow_reachable {hbTimeoutMs : U32} {fifoDepth cpus : Nat}
    (hinit : safetyCoproInit hbTimeoutMs fifoDepth cpus = some dev)
    (inputs : List (DevOp × Context)) :
    ∃ log, Recorded log (Machine.after step dev inputs) ∧
      (Machine.after step dev inputs).timelineShow =
        timelineHeading :: (Ring.recent safetyTimelineDepth log).map timelineLine := by
  obtain ⟨log, hlog⟩ : ∃ log, Recorded log (Machine.after step dev inputs) := by
    refine Machine.after_history (P := fun _ dev => ∃ log, Recorded log dev)
      (fun _ input dev hdev => ?_) ⟨[], recorded_init hinit⟩ inputs
    obtain ⟨log, h⟩ := hdev
    obtain ⟨-, hreset⟩ | ⟨more, hmore⟩ := h.called (call_called input.2 input.1)
    · exact ⟨[], hreset⟩
    · exact ⟨_, hmore⟩
  exact ⟨log, hlog, hlog.timelineShow_eq⟩

end SafetyCoproDev

end SafetyCopro
