import Mathlib.Data.Multiset.Count
import SafetyCopro.Driver.Sections

/-!
What the driver keeps whichever of its calls goes on next: a link that shows
`HB_OK` is watched and one that shows `HB_TIMEOUT` recovers, the counters come
together when the calls have ended, and no two frames of the driver have the same
number.
-/

namespace SafetyCopro

namespace Section

def writesLink : Section → Bool
  | .feed | .startTimer _ | .fire | .expire | .schedule | .dequeue | .recover => true
  | _ => false

def writesCounters : Section → Bool
  | .protoError _ | .incRx _ | .countDrop _ _ | .incDropped | .resetLocked | .resetCpu _ => true
  | _ => false

def takesNumber : Section → Bool
  | .takeSeq _ => true
  | _ => false

/-- A section that arms the watchdog, or its expiry. -/
def Watches : Section → Prop
  | .readTimeout | .startTimer _ | .expire => True
  | _ => False

/-- A section that queues the recovery, or the recovery itself. -/
def Recovers : Section → Prop
  | .schedule | .recover => True
  | _ => False

def owesRx : Section → Bool
  | .incRx _ => true
  | _ => false

def owesDrop : Section → Bool
  | .incDropped => true
  | _ => false

/-- The number in the header of a frame of the driver that is about to be pushed. -/
def ownNumber : Section → Option U16
  | .push frame _ _ _ .driver => some (SafetyFrameHeader.ofBytes frame).sequenceId
  | _ => none

/-- A section that does not reset the counters, and counts no error for nothing. -/
def Counts : Section → Prop
  | .resetLocked | .resetCpu _ => False
  | .protoError vres => vres ≠ .ok
  | _ => True

/-- A section of a run without a reset that is not one of the counters' own. -/
def Uncounted (a : Section) : Prop := a.owesRx = false ∧ a.owesDrop = false ∧ a.Counts

/-- A section that neither pushes nor counts. -/
def Plain : Section → Prop
  | .push .. | .incRx _ | .incDropped | .protoError _ | .resetLocked | .resetCpu _ => False
  | _ => True

/-- The sections that go on with others than plain ones. -/
def Leads : Section → Prop
  | .push .. | .countDrop _ _ | .takeSeq _ | .resetLocked | .resetCpu _ => True
  | _ => False

end Section

def SectionEvent.isQueued : SectionEvent → Bool
  | .queued _ _ => true
  | _ => false

def SectionEvent.isMade : SectionEvent → Bool
  | .made _ => true
  | _ => false

/-- The number in the header of a frame of the driver that was queued. -/
def SectionEvent.ownNumber : SectionEvent → Option U16
  | .queued frame .driver => some (SafetyFrameHeader.ofBytes frame).sequenceId
  | _ => none

namespace SafetyCoproDev
open Interleave (Effect Pool Move Allowed)

/-! ### The sections -/

section Sections
variable {dev : SafetyCoproDev} {env : SectionEnv}

theorem mem_pushedBy {pusher : Pusher} {type : U8} {result : Except Errno Unit} {a : Section}
    (h : a ∈ pushedBy pusher type result) : a = .feed ∨ ∃ r, a = .ret r := by
  cases pusher with
  | driver => cases h
  | linkd vres =>
      cases result with
      | error e => exact Or.inr ⟨_, List.mem_singleton.mp h⟩
      | ok u =>
          rw [pushedBy] at h
          obtain h | h := List.mem_append.mp h
          · split at h
            · exact Or.inl (List.mem_singleton.mp h)
            · cases h
          · exact Or.inr ⟨_, List.mem_singleton.mp h⟩

/-- A push finds no frame, no room, or room. -/
theorem exec_push (frame : List U8) (seq : U16) (type : U8) (event : SafetyTimelineEvent)
    (pusher : Pusher) (env : SectionEnv) (dev : SafetyCoproDev) :
    exec (.push frame seq type event pusher) env dev =
        { shared := dev, next := pushedBy pusher type (.error .emsgsize) } ∨
      exec (.push frame seq type event pusher) env dev =
        { shared := dev, next := .countDrop seq type :: pushedBy pusher type (.error .enospc) } ∨
      exec (.push frame seq type event pusher) env dev =
        { shared := dev.enqueueLocked env.ctx frame seq event
          next := .incRx frame.length ::
            .trace (.frameReceived seq type (BitVec.ofNat 32 (dev.rxFifo.length + 1))) ::
            pushedBy pusher type (.ok ())
          out := [.queued frame pusher] } := by
  by_cases hlen : frame.length = 0 ∨ frame.length > safetyMaxFrameSize
  · exact Or.inl (by rw [exec, if_pos hlen])
  · obtain ⟨hpos, hmax⟩ : 0 < frame.length ∧ frame.length ≤ safetyMaxFrameSize := by omega
    by_cases hroom : dev.rxFifo.length < dev.fifoDepth
    · exact Or.inr (Or.inr (exec_push_room hpos hmax seq type event pusher hroom env))
    · exact Or.inr (Or.inl (exec_push_full hpos hmax seq type event pusher (Nat.not_lt.mp hroom)
        env))

/-- The parts of the device that a section does not write. -/
theorem exec_frame (a : Section) (env : SectionEnv) (dev : SafetyCoproDev) :
    (a.writesLink = false → (exec a env dev).shared.state = dev.state ∧
      (exec a env dev).shared.hbTimerArmed = dev.hbTimerArmed ∧
      (exec a env dev).shared.recoveryWorkQueued = dev.recoveryWorkQueued) ∧
    (a.writesCounters = false → (exec a env dev).shared.tally = dev.tally) ∧
    (a.takesNumber = false → (exec a env dev).shared.synthSeq = dev.synthSeq) := by
  have hsame : ∀ {e : Effect SafetyCoproDev Section SectionEvent}, e.shared = dev →
      (a.writesLink = false → e.shared.state = dev.state ∧
        e.shared.hbTimerArmed = dev.hbTimerArmed ∧
        e.shared.recoveryWorkQueued = dev.recoveryWorkQueued) ∧
      (a.writesCounters = false → e.shared.tally = dev.tally) ∧
      (a.takesNumber = false → e.shared.synthSeq = dev.synthSeq) := by
    rintro e rfl
    exact ⟨fun _ => ⟨rfl, rfl, rfl⟩, fun _ => rfl, fun _ => rfl⟩
  cases a with
  | push frame seq type event pusher =>
      obtain h | h | h := exec_push frame seq type event pusher env dev
      · exact hsame (by rw [h])
      · exact hsame (by rw [h])
      · rw [h]
        exact ⟨fun _ => ⟨rfl, rfl, rfl⟩, fun _ => rfl, fun _ => rfl⟩
  | takeSeq s =>
      rw [exec_takeSeq]
      exact ⟨fun _ => ⟨rfl, rfl, rfl⟩, fun _ => rfl, fun h => by cases h⟩
  | protoError vres =>
      refine ⟨fun _ => ?_, fun h => (by cases h), fun _ => ?_⟩ <;> cases vres <;>
        first | exact ⟨rfl, rfl, rfl⟩ | rfl
  | fire =>
      rw [exec]
      split
      · exact ⟨fun h => (by cases h), fun _ => rfl, fun _ => rfl⟩
      · exact hsame rfl
  | pushTx frame seq type =>
      rw [exec]
      split
      · exact hsame rfl
      split
      · exact hsame rfl
      · exact ⟨fun _ => ⟨rfl, rfl, rfl⟩, fun _ => rfl, fun _ => rfl⟩
  | pop count nonblock fault =>
      have hpop : (exec (.pop count nonblock fault) env dev).shared = dev.fifoPopFrame.1 := by
        simp only [exec]
        split
        · rfl
        split
        · rfl
        split <;> rfl
      rw [hpop, fifoPopFrame]
      split <;> exact ⟨fun _ => ⟨rfl, rfl, rfl⟩, fun _ => rfl, fun _ => rfl⟩
  | popTx fault =>
      have hpop : (exec (.popTx fault) env dev).shared = dev.fifoPopTxFrame.1 := rfl
      rw [hpop, fifoPopTxFrame]
      split <;> exact ⟨fun _ => ⟨rfl, rfl, rfl⟩, fun _ => rfl, fun _ => rfl⟩
  | pollRx =>
      rw [exec]
      split <;> exact hsame rfl
  | resetCpu cpu =>
      rw [exec]
      split
      · exact ⟨fun _ => ⟨rfl, rfl, rfl⟩, fun h => (by cases h), fun _ => rfl⟩
      · exact hsame rfl
  | dequeue =>
      rw [exec]
      split
      · exact ⟨fun h => (by cases h), fun _ => rfl, fun _ => rfl⟩
      · exact hsame rfl
  | feed | startTimer _ | expire | schedule | recover =>
      exact ⟨fun h => (by cases h), fun _ => rfl, fun _ => rfl⟩
  | incRx _ | countDrop _ _ | incDropped | resetLocked =>
      exact ⟨fun _ => ⟨rfl, rfl, rfl⟩, fun h => (by cases h), fun _ => rfl⟩
  | _ => exact ⟨fun _ => ⟨rfl, rfl, rfl⟩, fun _ => rfl, fun _ => rfl⟩

/-- The other sections neither push nor count in what follows them. -/
theorem exec_plain {a : Section} (ha : ¬ a.Leads) :
    (∀ b ∈ (exec a env dev).next, b.Plain) ∧
      ∀ e ∈ (exec a env dev).out, ∃ seen, e = .seen seen := by
  have hnone : (∀ b ∈ ([] : List Section), b.Plain) ∧
      ∀ e ∈ ([] : List SectionEvent), ∃ seen, e = .seen seen :=
    ⟨List.forall_mem_nil _, List.forall_mem_nil _⟩
  have hone : ∀ b : Section, b.Plain → (∀ b' ∈ [b], b'.Plain) ∧
      ∀ e ∈ ([] : List SectionEvent), ∃ seen, e = .seen seen :=
    fun b hb => ⟨List.forall_mem_singleton.mpr hb, List.forall_mem_nil _⟩
  have htwo : ∀ b b' : Section, b.Plain → b'.Plain → (∀ b'' ∈ [b, b'], b''.Plain) ∧
      ∀ e ∈ ([] : List SectionEvent), ∃ seen, e = .seen seen :=
    fun b b' hb hb' => ⟨List.forall_mem_cons.mpr ⟨hb, (hone b' hb').1⟩, List.forall_mem_nil _⟩
  cases a with
  | push _ _ _ _ _ | countDrop _ _ | takeSeq _ | resetLocked | resetCpu _ => exact absurd trivial ha
  | trace e => exact ⟨List.forall_mem_nil _, List.forall_mem_singleton.mpr ⟨_, rfl⟩⟩
  | traceTx seq type => exact ⟨List.forall_mem_nil _, List.forall_mem_singleton.mpr ⟨_, rfl⟩⟩
  | ret result => exact ⟨List.forall_mem_nil _, List.forall_mem_singleton.mpr ⟨_, rfl⟩⟩
  | pushTx frame seq type =>
      rw [exec]
      split
      · exact hone _ trivial
      split
      · exact htwo _ _ trivial trivial
      · exact htwo _ _ trivial trivial
  | pop count nonblock fault =>
      simp only [exec]
      split
      · split <;> exact hone _ trivial
      split
      · exact hone _ trivial
      split <;> exact hone _ trivial
  | waitReadable count fault =>
      simp only [exec]
      split
      · exact hone _ trivial
      split <;> exact hone _ trivial
  | pollRx =>
      rw [exec]
      split
      · exact htwo _ _ trivial trivial
      · exact hone _ trivial
  | sumCpu st sum cpu fault =>
      simp only [exec]
      split <;> exact hone _ trivial
  | expire =>
      refine ⟨List.forall_mem_cons.mpr ⟨trivial, ?_⟩, List.forall_mem_nil _⟩
      exact List.forall_mem_cons.mpr ⟨trivial, List.forall_mem_singleton.mpr trivial⟩
  | recover => exact htwo _ _ trivial trivial
  | fire =>
      rw [exec]
      split
      · exact hone _ trivial
      · exact hnone
  | dequeue =>
      rw [exec]
      split
      · exact hone _ trivial
      · exact hnone
  | protoError _ | incRx _ | incDropped | startTimer _ | setTimeout _ | schedule => exact hnone
  | _ => exact hone _ trivial

end Sections

/-! ### The runs -/

/-- What a call can begin with. -/
inductive Opens (op : DevOp) : Section → Prop
  | plain {a : Section} (h : a.Plain) : Opens op a
  | refused {vres : SafetyValidateResult} (h : vres ≠ .ok) : Opens op (.protoError vres)
  | pushed (frame : List U8) (seq : U16) (type : U8) (event : SafetyTimelineEvent)
      (vres : SafetyValidateResult) : Opens op (.push frame seq type event (.linkd vres))
  | reset (h : op = .ioctl .resetStats) : Opens op .resetLocked

section Opens
variable {op : DevOp} {a b : Section}

theorem opens_singleton (ha : Opens op a) : ∀ a' ∈ [a], Opens op a' :=
  List.forall_mem_singleton.mpr ha

theorem opens_pair (ha : Opens op a) (hb : Opens op b) : ∀ a' ∈ [a, b], Opens op a' :=
  List.forall_mem_cons.mpr ⟨ha, opens_singleton hb⟩

theorem opens_ret (result : Except Errno Reply) : Opens op (.ret result) := .plain trivial

theorem queueRxSections_opens (frame : List U8) : ∀ a ∈ queueRxSections frame, Opens op a := by
  have hbad : ∀ vres : SafetyValidateResult, vres ≠ .ok →
      ∀ a ∈ [.protoError vres, .ret (.error .einval)], Opens op a :=
    fun vres hvres => opens_pair (.refused hvres) (opens_ret _)
  simp only [queueRxSections]
  split
  · exact opens_singleton (opens_ret _)
  split
  · exact opens_singleton (opens_ret _)
  split
  · exact hbad _ (by decide)
  split
  · exact hbad _ (by decide)
  split
  · exact hbad _ (by decide)
  split
  · exact hbad _ (by decide)
  split
  · rename_i hvres
    exact hbad _ hvres.1
  split
  · rename_i hsum
    exact opens_pair (.refused (by rw [hsum]; decide)) (.pushed ..)
  · exact opens_singleton (.pushed ..)

theorem writeSections_opens (ubuf : List U8) (fault : Bool) :
    ∀ a ∈ writeSections ubuf fault, Opens op a := by
  simp only [writeSections]
  split
  · exact opens_singleton (opens_ret _)
  split
  · exact opens_singleton (opens_ret _)
  split
  · exact opens_singleton (opens_ret _)
  split
  · rename_i hvres
    exact opens_pair (.refused hvres) (opens_ret _)
  · exact opens_singleton (.plain trivial)

theorem sections_opens (op : DevOp) : ∀ a ∈ sections op, Opens op a := by
  cases op with
  | write ubuf fault => exact writeSections_opens ubuf fault
  | read count nonblock fault => exact opens_singleton (.plain trivial)
  | poll => exact opens_singleton (.plain trivial)
  | hbTimer => exact opens_pair (.plain trivial) (opens_ret _)
  | recoveryWork => exact opens_pair (.plain trivial) (opens_ret _)
  | ioctl cmd =>
      cases cmd with
      | resetStats => exact opens_pair (.reset rfl) (opens_ret _)
      | setHbTimeoutMs ms =>
          cases ms with
          | none => exact opens_singleton (opens_ret _)
          | some ms =>
              rw [sections, ioctlSections]
              split
              · exact opens_singleton (opens_ret _)
              · refine List.forall_mem_cons.mpr ⟨.plain trivial, ?_⟩
                exact opens_pair (.plain trivial) (opens_ret _)
      | injectFault faultType =>
          cases faultType with
          | none => exact opens_singleton (opens_ret _)
          | some faultType => exact opens_pair (.plain trivial) (opens_ret _)
      | pushRxFrame io =>
          cases io with
          | none => exact opens_singleton (opens_ret _)
          | some frame =>
              rw [sections, ioctlSections]
              split
              · exact opens_singleton (opens_ret _)
              · exact queueRxSections_opens frame
      | forceRecovery => exact opens_pair (.plain trivial) (opens_ret _)
      | _ => exact opens_singleton (.plain trivial)

end Opens

/-- A schedule of calls on the first CPU: one begins, or the `i`-th goes on. -/
def schedule (turns : List (DevOp ⊕ Nat)) : List (Move SectionEnv Section) :=
  turns.map fun turn =>
    match turn with
    | .inl op => .start (sections op)
    | .inr i => .run i {}

theorem schedule_started (turns : List (DevOp ⊕ Nat)) : ∀ m ∈ schedule turns, Started m := by
  intro m hm
  obtain ⟨turn, -, rfl⟩ := List.mem_map.mp hm
  cases turn with
  | inl op => exact ⟨op, rfl⟩
  | inr i => exact trivial

theorem init_state {hbTimeoutMs : U32} {fifoDepth cpus : Nat} {dev : SafetyCoproDev}
    (h : safetyCoproInit hbTimeoutMs fifoDepth cpus = some dev) :
    dev.state = .booting ∧ dev.synthSeq = 0 := by
  dsimp only [safetyCoproInit] at h
  generalize roundupPowOfTwo _ = depth at h
  split at h
  · cases h
  · obtain rfl := Option.some.inj h
    exact ⟨rfl, rfl⟩

/-! ### The link -/

/-- While the link is in the state, the device shows it, or a section of the kind is
still to come. -/
def Covered (state : SafetyLinkState) (shows : SafetyCoproDev → Bool) (kind : Section → Prop)
    (dev : SafetyCoproDev) (M : Multiset Section) : Prop :=
  dev.state = state → shows dev = true ∨ ∃ a ∈ M, kind a

section Link
variable {dev dev' : SafetyCoproDev} {env : SectionEnv} {M : Multiset Section} {a : Section}
variable {state : SafetyLinkState} {shows : SafetyCoproDev → Bool} {kind : Section → Prop}
variable {next : List Section}

theorem Covered.keep (h : Covered state shows kind dev (a ::ₘ M)) (ha : ¬ kind a)
    (hstate : dev'.state = dev.state) (hshows : shows dev' = shows dev) :
    Covered state shows kind dev' ((next : Multiset Section) + M) := by
  intro hok
  obtain hyes | ⟨b, hb, hkind⟩ := h (hstate ▸ hok)
  · exact Or.inl (hshows ▸ hyes)
  · obtain rfl | hb := Multiset.mem_cons.mp hb
    · exact absurd hkind ha
    · exact Or.inr ⟨b, Multiset.mem_add.mpr (Or.inr hb), hkind⟩

theorem Covered.begun (h : Covered state shows kind dev M) (call : List Section) :
    Covered state shows kind dev (M + (call : Multiset Section)) := by
  intro hok
  obtain hyes | ⟨b, hb, hkind⟩ := h hok
  · exact Or.inl hyes
  · exact Or.inr ⟨b, Multiset.mem_add.mpr (Or.inl hb), hkind⟩

/-- A link that shows a heartbeat has its watchdog armed, or a call is about to arm
it or to say that it expired. -/
def Attended : SafetyCoproDev → Multiset Section → Prop :=
  Covered .hbOk hbTimerArmed Section.Watches

theorem Attended.exec_section (h : dev.Attended (a ::ₘ M)) :
    (exec a env dev).shared.Attended ((exec a env dev).next + M) := by
  have hkeep (ha : ¬ a.Watches) (hlink : a.writesLink = false) :
      (exec a env dev).shared.Attended ((exec a env dev).next + M) := by
    obtain ⟨hstate, harmed, -⟩ := (exec_frame a env dev).1 hlink
    exact Covered.keep h ha hstate harmed
  cases a with
  | fire =>
      by_cases harmed : dev.hbTimerArmed = true
      · have hfire : exec .fire env dev =
            { shared := { dev with hbTimerArmed := false }, next := [.expire] } := if_pos harmed
        rw [hfire]
        exact fun _ => Or.inr ⟨.expire, Multiset.mem_cons_self _ _, trivial⟩
      · have hidle : exec .fire env dev = { shared := dev } := if_neg harmed
        rw [hidle]
        exact Covered.keep h id rfl rfl
  | dequeue =>
      rw [exec]
      split <;> exact Covered.keep h id rfl rfl
  | schedule => exact Covered.keep h id rfl rfl
  | expire => exact fun hok => by cases hok
  | feed => exact fun _ => Or.inr ⟨.readTimeout, Multiset.mem_cons_self _ _, trivial⟩
  | readTimeout => exact fun _ => Or.inr ⟨.startTimer _, Multiset.mem_cons_self _ _, trivial⟩
  | startTimer ms => exact fun _ => Or.inl rfl
  | recover => exact fun hok => by cases hok
  | _ => exact hkeep id rfl

/-- A link that shows a timeout has its recovery queued, or a call is about to queue
it or to recover. -/
def Recovered : SafetyCoproDev → Multiset Section → Prop :=
  Covered .hbTimeout recoveryWorkQueued Section.Recovers

theorem Recovered.exec_section (h : dev.Recovered (a ::ₘ M)) :
    (exec a env dev).shared.Recovered ((exec a env dev).next + M) := by
  have hkeep (ha : ¬ a.Recovers) (hlink : a.writesLink = false) :
      (exec a env dev).shared.Recovered ((exec a env dev).next + M) := by
    obtain ⟨hstate, -, hqueued⟩ := (exec_frame a env dev).1 hlink
    exact Covered.keep h ha hstate hqueued
  cases a with
  | dequeue =>
      by_cases hqueued : dev.recoveryWorkQueued = true
      · have hrun : exec .dequeue env dev =
            { shared := { dev with recoveryWorkQueued := false }, next := [.recover] } :=
          if_pos hqueued
        rw [hrun]
        exact fun _ => Or.inr ⟨.recover, Multiset.mem_cons_self _ _, trivial⟩
      · have hidle : exec .dequeue env dev = { shared := dev } := if_neg hqueued
        rw [hidle]
        exact Covered.keep h id rfl rfl
  | fire =>
      rw [exec]
      split <;> exact Covered.keep h id rfl rfl
  | startTimer ms => exact Covered.keep h id rfl rfl
  | expire =>
      refine fun _ => Or.inr ⟨.schedule, Multiset.mem_add.mpr (Or.inl ?_), trivial⟩
      exact List.mem_cons_of_mem _ (List.mem_cons_of_mem _ List.mem_cons_self)
  | feed => exact fun hok => by cases hok
  | schedule => exact fun _ => Or.inl rfl
  | recover => exact fun hok => by cases hok
  | _ => exact hkeep id rfl

end Link

/-- However the calls come between each other, a link that shows `HB_OK` is watched:
the watchdog is armed, or a call has still to arm it or to declare it expired. And a
link that shows `HB_TIMEOUT` recovers: the work is queued, or a call has still to
queue it or is about to recover. -/
theorem link_attended {hbTimeoutMs : U32} {fifoDepth cpus : Nat} {dev : SafetyCoproDev}
    (hinit : safetyCoproInit hbTimeoutMs fifoDepth cpus = some dev)
    {moves : List (Move SectionEnv Section)} (hmoves : ∀ m ∈ moves, Started m)
    {p : Pool SafetyCoproDev Section}
    (hp : p = Machine.after (Interleave.step exec) { shared := dev } moves) :
    (p.shared.state = .hbOk →
      p.shared.hbTimerArmed = true ∨ ∃ a ∈ p.pending, a.Watches) ∧
    (p.shared.state = .hbTimeout →
      p.shared.recoveryWorkQueued = true ∨ ∃ a ∈ p.pending, a.Recovers) := by
  have hstate : dev.state = .booting := (init_state hinit).1
  have hrun : p.shared.Attended p.pending ∧ p.shared.Recovered p.pending := by
    rw [hp]
    refine Interleave.invariant
      (P := fun _ (dev : SafetyCoproDev) M => dev.Attended M ∧ dev.Recovered M) ?_ ?_ ?_ hmoves
    · exact fun out dev M call _ h => ⟨Covered.begun h.1 call, Covered.begun h.2 call⟩
    · exact fun out dev M a env _ h => ⟨h.1.exec_section, h.2.exec_section⟩
    · refine ⟨fun hok => ?_, fun hout => ?_⟩
      · rw [hstate] at hok
        cases hok
      · rw [hstate] at hout
        cases hout
  exact hrun

/-- The daemon's push of a heartbeat, which the watchdog is armed behind. -/
def pushBeat : DevOp := .ioctl (.pushRxFrame (some (packFrame safetyFrameHeartbeat 1 0 [])))

theorem link_attended_beforeArming :
    ∃ dev p, safetyCoproInit 350 64 1 = some dev ∧
      p = Machine.after (Interleave.step exec) { shared := dev }
        (schedule [.inl pushBeat, .inr 0, .inr 0, .inr 0, .inr 0]) ∧
      p.shared.hbTimerArmed = false ∧
      (p.shared.hbTimerArmed = true ∨ ∃ a ∈ p.pending, a.Watches) := by
  obtain ⟨dev, hdev⟩ : ∃ dev, safetyCoproInit 350 64 1 = some dev := ⟨_, rfl⟩
  refine ⟨dev, _, hdev, rfl, ?_, (link_attended hdev (schedule_started _) rfl).1 ?_⟩
  · obtain rfl := Option.some.inj hdev
    decide +kernel
  · obtain rfl := Option.some.inj hdev
    decide +kernel

/-! ### The counters -/

/-- How many of the sections to come are of a kind. -/
def owing (kind : Section → Bool) (M : Multiset Section) : Nat := M.countP fun a => kind a

section Owing
variable {kind : Section → Bool} {a : Section} {M : Multiset Section}

theorem owing_cons_pos (h : kind a = true) : owing kind (a ::ₘ M) = owing kind M + 1 :=
  Multiset.countP_cons_of_pos M h

theorem owing_cons_neg (h : kind a = false) : owing kind (a ::ₘ M) = owing kind M :=
  Multiset.countP_cons_of_neg M (by rw [h]; exact Bool.false_ne_true)

theorem owing_next {next : List Section} (h : ∀ b ∈ next, kind b = false) :
    owing kind ((next : Multiset Section) + M) = owing kind M := by
  have hzero : (next : Multiset Section).countP (fun a => kind a = true) = 0 := by
    refine Multiset.countP_eq_zero.mpr fun b hb => ?_
    rw [h b hb]
    exact Bool.false_ne_true
  rw [owing, Multiset.countP_add, hzero, Nat.zero_add]
  rfl

end Owing

/-- The counters agree when what the sections to come have still to count is added. -/
structure Owed (cpus : Nat) (out : List SectionEvent) (dev : SafetyCoproDev)
    (M : Multiset Section) : Prop where
  cpus : dev.pcpu.length = cpus
  protocolErrors : dev.protocolErrorCount =
    dev.protoErrMagic + dev.protoErrVersion + dev.protoErrLength + dev.protoErrChecksum
  dropped : dev.droppedFrameCount =
    (dev.pcpu.map SafetyCoproPcpu.dropped).sum.setWidth 32 +
      BitVec.ofNat 32 (owing Section.owesDrop M)
  rxFrames : (dev.pcpu.map SafetyCoproPcpu.rxFrames).sum +
      BitVec.ofNat 64 (owing Section.owesRx M) =
    BitVec.ofNat 64 (out.countP SectionEvent.isQueued)
  counts : ∀ a ∈ M, a.Counts

namespace Owed
variable {cpus : Nat} {out : List SectionEvent} {dev dev' : SafetyCoproDev} {M : Multiset Section}
variable {a : Section} {env : SectionEnv}

/-- A section that leaves the counters as they are, and has nothing to count in what
follows it. -/
theorem quiet {next : List Section} {out' : List SectionEvent}
    (h : Owed cpus out dev (a ::ₘ M)) (ha : a.owesRx = false ∧ a.owesDrop = false)
    (htally : dev'.tally = dev.tally)
    (hnext : ∀ b ∈ next, b.Uncounted)
    (hout : ∀ e ∈ out', e.isQueued = false) :
    Owed cpus (out ++ out') dev' ((next : Multiset Section) + M) := by
  simp only [tally, Prod.mk.injEq] at htally
  obtain ⟨hpcpu, htotal, hmagic, hversion, hlength, hchecksum, hdropped⟩ := htally
  have hrx := h.rxFrames
  have hdrop := h.dropped
  have hqueued : (out ++ out').countP SectionEvent.isQueued = out.countP SectionEvent.isQueued := by
    have hzero : out'.countP SectionEvent.isQueued = 0 :=
      List.countP_eq_zero.mpr fun e he => Bool.eq_false_iff.mp (hout e he)
    rw [List.countP_append, hzero, Nat.add_zero]
  rw [owing_cons_neg ha.1] at hrx
  rw [owing_cons_neg ha.2] at hdrop
  refine ⟨?_, ?_, ?_, ?_, ?_⟩
  · rw [hpcpu, h.cpus]
  · rw [htotal, hmagic, hversion, hlength, hchecksum, h.protocolErrors]
  · rw [hdropped, hpcpu, owing_next fun b hb => (hnext b hb).2.1, hdrop]
  · rw [hpcpu, owing_next fun b hb => (hnext b hb).1, hqueued, hrx]
  · intro b hb
    obtain hb | hb := Multiset.mem_add.mp hb
    · exact (hnext b hb).2.2
    · exact h.counts b (Multiset.mem_cons_of_mem hb)

/-- A call that begins with nothing to count. -/
theorem begun {call : List Section} (h : Owed cpus out dev M)
    (hcall : ∀ b ∈ call, b.Uncounted) :
    Owed cpus out dev (M + (call : Multiset Section)) := by
  rw [Multiset.add_comm]
  refine ⟨h.cpus, h.protocolErrors, ?_, ?_, fun b hb => ?_⟩
  · rw [owing_next fun b hb => (hcall b hb).2.1, h.dropped]
  · rw [owing_next fun b hb => (hcall b hb).1, h.rxFrames]
  · exact (Multiset.mem_add.mp hb).elim (fun hb => (hcall b hb).2.2) (h.counts b)

theorem plain_owes {b : Section} (h : b.Plain) :
    b.Uncounted := by
  cases b <;> first | exact ⟨rfl, rfl, trivial⟩ | exact h.elim

theorem pushedBy_plain {pusher : Pusher} {type : U8} {result : Except Errno Unit} :
    ∀ b ∈ pushedBy pusher type result, b.Uncounted := by
  intro b hb
  obtain rfl | ⟨r, rfl⟩ := mem_pushedBy hb <;> exact ⟨rfl, rfl, trivial⟩

/-- A frame in the queue is still to be counted for its CPU. -/
theorem queued {frame : List U8} {pusher : Pusher} {next : List Section} {bytes : Nat}
    (h : Owed cpus out dev (a ::ₘ M)) (ha : a.owesRx = false ∧ a.owesDrop = false)
    (htally : dev'.tally = dev.tally)
    (hnext : ∀ b ∈ next, b.Uncounted) :
    Owed cpus (out ++ [.queued frame pusher]) dev'
      ((.incRx bytes :: next : List Section) + M) := by
  obtain ⟨hcpus, herrors, hdropped, hrx, hcounts⟩ := h.quiet ha htally hnext (List.forall_mem_nil _)
  have hcons : ((.incRx bytes :: next : List Section) : Multiset Section) + M =
      .incRx bytes ::ₘ ((next : Multiset Section) + M) := by
    rw [← Multiset.cons_coe, Multiset.cons_add]
  rw [List.append_nil] at hrx
  rw [hcons]
  refine ⟨hcpus, herrors, ?_, ?_, ?_⟩
  · rw [owing_cons_neg rfl, hdropped]
  · rw [owing_cons_pos rfl, List.countP_append, BitVec.ofNat_add, BitVec.ofNat_add,
      ← BitVec.add_assoc, hrx]
    rfl
  · exact Multiset.forall_mem_cons.mpr ⟨trivial, hcounts⟩

theorem incRx {bytes : Nat} (h : Owed cpus out dev (.incRx bytes ::ₘ M))
    (hcpu : env.ctx.cpu < cpus) : Owed cpus out (dev.percpuIncRx env.ctx.cpu bytes) M := by
  have hlt : env.ctx.cpu < dev.pcpu.length := h.cpus ▸ hcpu
  have hrx := h.rxFrames
  have hdrop := h.dropped
  have hsum : ((dev.percpuIncRx env.ctx.cpu bytes).pcpu.map SafetyCoproPcpu.rxFrames).sum =
      (dev.pcpu.map SafetyCoproPcpu.rxFrames).sum + 1 := sum_map_modify (fun _ => rfl) hlt
  have hmap : (dev.percpuIncRx env.ctx.cpu bytes).pcpu.map SafetyCoproPcpu.dropped =
      dev.pcpu.map SafetyCoproPcpu.dropped := map_modify_of_eq (by intro p; rfl) _ _
  rw [owing_cons_neg rfl] at hdrop
  rw [owing_cons_pos rfl, BitVec.ofNat_add] at hrx
  refine ⟨(List.length_modify _ _ _).trans h.cpus, h.protocolErrors, ?_, ?_, ?_⟩
  · rw [hmap]
    exact hdrop
  · rw [hsum, ← hrx, add_assoc, add_comm (1 : U64)]
    rfl
  · exact fun b hb => h.counts b (Multiset.mem_cons_of_mem hb)

theorem countDrop {seq : U16} {type : U8} (h : Owed cpus out dev (.countDrop seq type ::ₘ M)) :
    Owed cpus out { dev with droppedFrameCount := dev.droppedFrameCount + 1 }
      (.incDropped ::ₘ .trace (.frameDropped seq type) ::ₘ M) := by
  have hrx := h.rxFrames
  have hdrop := h.dropped
  rw [owing_cons_neg rfl] at hrx
  rw [owing_cons_neg rfl] at hdrop
  refine ⟨h.cpus, h.protocolErrors, ?_, ?_, ?_⟩
  · rw [owing_cons_pos rfl, owing_cons_neg rfl,
      BitVec.ofNat_add, ← BitVec.add_assoc, ← hdrop]
    rfl
  · rw [owing_cons_neg rfl,
      owing_cons_neg rfl]
    exact hrx
  · refine Multiset.forall_mem_cons.mpr ⟨trivial, Multiset.forall_mem_cons.mpr ⟨trivial, ?_⟩⟩
    exact fun b hb => h.counts b (Multiset.mem_cons_of_mem hb)

theorem incDropped (h : Owed cpus out dev (.incDropped ::ₘ M)) (hcpu : env.ctx.cpu < cpus) :
    Owed cpus out (dev.percpuIncDropped env.ctx.cpu) M := by
  have hlt : env.ctx.cpu < dev.pcpu.length := h.cpus ▸ hcpu
  have hrx := h.rxFrames
  have hdrop := h.dropped
  have hsum : ((dev.percpuIncDropped env.ctx.cpu).pcpu.map SafetyCoproPcpu.dropped).sum =
      (dev.pcpu.map SafetyCoproPcpu.dropped).sum + 1 := sum_map_modify (fun _ => rfl) hlt
  have hwidth : ((dev.pcpu.map SafetyCoproPcpu.dropped).sum + 1).setWidth 32 =
      (dev.pcpu.map SafetyCoproPcpu.dropped).sum.setWidth 32 + 1 :=
    BitVec.setWidth_add _ _ (by decide)
  have hmap : (dev.percpuIncDropped env.ctx.cpu).pcpu.map SafetyCoproPcpu.rxFrames =
      dev.pcpu.map SafetyCoproPcpu.rxFrames := map_modify_of_eq (by intro p; rfl) _ _
  rw [owing_cons_neg rfl] at hrx
  rw [owing_cons_pos rfl, BitVec.ofNat_add] at hdrop
  refine ⟨(List.length_modify _ _ _).trans h.cpus, h.protocolErrors, ?_, ?_, ?_⟩
  · rw [hsum, hwidth, add_assoc, add_comm (1 : U32)]
    exact hdrop
  · rw [hmap]
    exact hrx
  · exact fun b hb => h.counts b (Multiset.mem_cons_of_mem hb)

theorem protoError {vres : SafetyValidateResult} (h : Owed cpus out dev (.protoError vres ::ₘ M)) :
    Owed cpus out (dev.recordProtoError vres) M := by
  have hvres : vres ≠ .ok := h.counts _ (Multiset.mem_cons_self _ _)
  have hrx := h.rxFrames
  have hdrop := h.dropped
  have hsum := h.protocolErrors
  rw [owing_cons_neg rfl] at hrx
  rw [owing_cons_neg rfl] at hdrop
  refine ⟨?_, ?_, ?_, ?_, fun b hb => h.counts b (Multiset.mem_cons_of_mem hb)⟩
  · cases vres <;> exact h.cpus
  · cases vres with
    | ok => exact absurd rfl hvres
    | badMagic | badVersion | badLength | badChecksum =>
        simp only [SafetyCoproDev.recordProtoError, hsum]
        ac_rfl
  · cases vres <;> exact hdrop
  · cases vres <;> exact hrx

theorem exec_section (h : Owed cpus out dev (a ::ₘ M)) (hcpu : env.ctx.cpu < cpus) :
    Owed cpus (out ++ (exec a env dev).out) (exec a env dev).shared
      ((exec a env dev).next + M) := by
  have hkeep (ha : ¬ a.Leads) (howes : a.owesRx = false ∧ a.owesDrop = false)
      (htally : (exec a env dev).shared.tally = dev.tally) :
      Owed cpus (out ++ (exec a env dev).out) (exec a env dev).shared
        ((exec a env dev).next + M) := by
    obtain ⟨hnext, hout⟩ := @exec_plain dev env a ha
    refine h.quiet howes htally (fun b hb => plain_owes (hnext b hb)) fun e he => ?_
    obtain ⟨seen, rfl⟩ := hout e he
    rfl
  cases a with
  | push frame seq type event pusher =>
      obtain heq | heq | heq := exec_push frame seq type event pusher env dev
      · rw [heq]
        exact h.quiet ⟨rfl, rfl⟩ rfl (@pushedBy_plain pusher type (.error .emsgsize))
          (List.forall_mem_nil _)
      · rw [heq]
        refine h.quiet ⟨rfl, rfl⟩ rfl ?_ (List.forall_mem_nil _)
        exact List.forall_mem_cons.mpr ⟨⟨rfl, rfl, trivial⟩, pushedBy_plain⟩
      · rw [heq]
        refine h.queued ⟨rfl, rfl⟩ rfl ?_
        exact List.forall_mem_cons.mpr ⟨⟨rfl, rfl, trivial⟩, pushedBy_plain⟩
  | protoError vres => exact (List.append_nil out).symm ▸ (Multiset.zero_add M).symm ▸ h.protoError
  | incRx bytes => exact (List.append_nil out).symm ▸ (Multiset.zero_add M).symm ▸ h.incRx hcpu
  | countDrop seq type =>
      have hcons : (([.incDropped, .trace (.frameDropped seq type)] : List Section) :
          Multiset Section) + M = .incDropped ::ₘ .trace (.frameDropped seq type) ::ₘ M := by
        rw [← Multiset.cons_coe, ← Multiset.cons_coe, Multiset.cons_add, Multiset.cons_add,
          Multiset.coe_nil, Multiset.zero_add]
      exact (List.append_nil out).symm ▸ hcons.symm ▸ h.countDrop
  | incDropped => exact (List.append_nil out).symm ▸ (Multiset.zero_add M).symm ▸ h.incDropped hcpu
  | takeSeq s =>
      rw [exec_takeSeq]
      exact h.quiet ⟨rfl, rfl⟩ rfl (List.forall_mem_singleton.mpr ⟨rfl, rfl, trivial⟩)
        (List.forall_mem_singleton.mpr rfl)
  | resetLocked | resetCpu _ => exact absurd (h.counts _ (Multiset.mem_cons_self _ _)) id
  | _ => exact hkeep id ⟨rfl, rfl⟩ ((exec_frame _ env dev).2.1 rfl)

end Owed

/-- The calls that begin do not reset the counters, and run on the CPUs there are. -/
def StartedCounting (cpus : Nat) : Move SectionEnv Section → Prop :=
  Allowed (fun call => ∃ op, op ≠ .ioctl .resetStats ∧ call = sections op)
    fun env => env.ctx.cpu < cpus

theorem Opens.uncounted {op : DevOp} (hop : op ≠ .ioctl .resetStats) {a : Section}
    (h : Opens op a) : a.Uncounted := by
  cases h with
  | plain hplain => exact Owed.plain_owes hplain
  | refused hvres => exact ⟨rfl, rfl, hvres⟩
  | pushed frame seq type event vres => exact ⟨rfl, rfl, trivial⟩
  | reset heq => exact absurd heq hop

theorem owed_run {hbTimeoutMs : U32} {fifoDepth cpus : Nat} {dev : SafetyCoproDev}
    (hinit : safetyCoproInit hbTimeoutMs fifoDepth cpus = some dev)
    {moves : List (Move SectionEnv Section)} (hmoves : ∀ m ∈ moves, StartedCounting cpus m) :
    Owed cpus (Machine.outputs (Interleave.step exec) { shared := dev } moves)
      (Machine.after (Interleave.step exec) { shared := dev } moves).shared
      (Machine.after (Interleave.step exec) { shared := dev } moves).pending := by
  have hbalanced := balanced_init hinit
  refine Interleave.invariant (P := Owed cpus) ?_ ?_ ?_ hmoves
  · rintro out dev M call ⟨op, hop, rfl⟩ h
    exact h.begun fun a ha => (sections_opens op a ha).uncounted hop
  · exact fun out dev M a env hcpu h => h.exec_section hcpu
  · exact ⟨hbalanced.cpus, hbalanced.protocolErrors, hbalanced.dropped.trans
      (BitVec.add_zero _).symm, (BitVec.add_zero _).trans hbalanced.rxFrames,
      fun a ha => absurd ha (Multiset.notMem_zero a)⟩

/-- However the calls come between each other, the counters differ only by what the
calls under way have still to count: when all have ended, they agree. -/
theorem interleaved_counters {hbTimeoutMs : U32} {fifoDepth cpus : Nat} {dev : SafetyCoproDev}
    (hinit : safetyCoproInit hbTimeoutMs fifoDepth cpus = some dev)
    {moves : List (Move SectionEnv Section)} (hmoves : ∀ m ∈ moves, StartedCounting cpus m)
    {p : Pool SafetyCoproDev Section}
    (hp : p = Machine.after (Interleave.step exec) { shared := dev } moves) :
    p.shared.protocolErrorCount = p.shared.protoErrMagic + p.shared.protoErrVersion +
        p.shared.protoErrLength + p.shared.protoErrChecksum ∧
      p.shared.droppedFrameCount = p.shared.percpuSum.dropped.setWidth 32 +
        BitVec.ofNat 32 (owing Section.owesDrop p.pending) ∧
      p.shared.percpuSum.rxFrames + BitVec.ofNat 64 (owing Section.owesRx p.pending) =
        BitVec.ofNat 64 ((Machine.outputs (Interleave.step exec) { shared := dev }
          moves).countP SectionEvent.isQueued) := by
  have hrun := owed_run hinit hmoves
  rw [← hp] at hrun
  rw [percpuSum_eq]
  exact ⟨hrun.protocolErrors, hrun.dropped, hrun.rxFrames⟩

/-- A heartbeat is in the queue and not yet counted for its CPU. -/
theorem interleaved_counters_beforeCounting :
    ∃ dev p, safetyCoproInit 350 64 1 = some dev ∧
      p = Machine.after (Interleave.step exec) { shared := dev }
        (schedule [.inl pushBeat, .inr 0]) ∧
      owing Section.owesRx p.pending = 1 ∧
      p.shared.percpuSum.rxFrames + BitVec.ofNat 64 (owing Section.owesRx p.pending) =
        BitVec.ofNat 64 ((Machine.outputs (Interleave.step exec) { shared := dev }
          (schedule [.inl pushBeat, .inr 0])).countP SectionEvent.isQueued) := by
  obtain ⟨dev, hdev⟩ : ∃ dev, safetyCoproInit 350 64 1 = some dev := ⟨_, rfl⟩
  have hmoves : ∀ m ∈ schedule [.inl pushBeat, .inr 0], StartedCounting 1 m :=
    List.forall_mem_cons.mpr ⟨⟨pushBeat, by decide, rfl⟩,
      List.forall_mem_singleton.mpr (by decide : (0 : Nat) < 1)⟩
  refine ⟨dev, _, hdev, rfl, ?_, (interleaved_counters hdev hmoves rfl).2.2⟩
  obtain rfl := Option.some.inj hdev
  decide +kernel

/-! ### The numbers of the driver's frames -/

/-- The numbers of the driver's frames, queued and about to be: each was taken from
the counter once. -/
structure Numbered (out : List SectionEvent) (dev : SafetyCoproDev) (M : Multiset Section) :
    Prop where
  counter : dev.synthSeq = BitVec.ofNat 16 (out.countP SectionEvent.isMade)
  taken : (out.filterMap SectionEvent.ownNumber : Multiset U16) + M.filterMap Section.ownNumber ≤
    (Multiset.range (out.countP SectionEvent.isMade)).map (BitVec.ofNat 16)

namespace Numbered
variable {out out' : List SectionEvent} {dev dev' : SafetyCoproDev} {M : Multiset Section}
variable {a : Section} {env : SectionEnv} {next : List Section}

theorem filterMap_next (h : ∀ b ∈ next, b.ownNumber = none) :
    ((next : Multiset Section) + M).filterMap Section.ownNumber =
      M.filterMap Section.ownNumber := by
  rw [Multiset.filterMap_add, Multiset.filterMap_coe, List.filterMap_eq_nil_iff.mpr h,
    Multiset.coe_nil, Multiset.zero_add]

/-- A section that takes no number and queues no frame of the driver. -/
theorem quiet (h : Numbered out dev (a ::ₘ M)) (hseq : dev'.synthSeq = dev.synthSeq)
    (hnext : ∀ b ∈ next, b.ownNumber = none)
    (hout : ∀ e ∈ out', e.isMade = false ∧ e.ownNumber = none) :
    Numbered (out ++ out') dev' ((next : Multiset Section) + M) := by
  have hmade : (out ++ out').countP SectionEvent.isMade = out.countP SectionEvent.isMade := by
    have hzero : out'.countP SectionEvent.isMade = 0 :=
      List.countP_eq_zero.mpr fun e he => Bool.eq_false_iff.mp (hout e he).1
    rw [List.countP_append, hzero, Nat.add_zero]
  have hown : (out ++ out').filterMap SectionEvent.ownNumber =
      out.filterMap SectionEvent.ownNumber := by
    rw [List.filterMap_append, List.filterMap_eq_nil_iff.mpr fun e he => (hout e he).2,
      List.append_nil]
  refine ⟨by rw [hseq, hmade, h.counter], ?_⟩
  rw [hown, hmade, filterMap_next hnext]
  refine le_trans (Multiset.add_le_add_left ?_) h.taken
  exact Multiset.filterMap_le_filterMap _ (Multiset.le_cons_self M a)

theorem pushedBy_ownNumber {pusher : Pusher} {type : U8} {result : Except Errno Unit} :
    ∀ b ∈ pushedBy pusher type result, b.ownNumber = none := by
  intro b hb
  obtain rfl | ⟨r, rfl⟩ := mem_pushedBy hb <;> rfl

/-- A frame goes into the queue with its number. -/
theorem queued {frame : List U8} {seq : U16} {type : U8} {event : SafetyTimelineEvent}
    (h : Numbered out dev (.push frame seq type event .driver ::ₘ M))
    (hseq : dev'.synthSeq = dev.synthSeq) (hnext : ∀ b ∈ next, b.ownNumber = none) :
    Numbered (out ++ [.queued frame .driver]) dev' ((next : Multiset Section) + M) := by
  have hmade : (out ++ [SectionEvent.queued frame .driver]).countP SectionEvent.isMade =
      out.countP SectionEvent.isMade := List.countP_append
  have htaken := h.taken
  refine ⟨by rw [hseq, hmade, h.counter], ?_⟩
  rw [Multiset.filterMap_cons_some Section.ownNumber _ M rfl, Multiset.add_cons,
    ← Multiset.cons_add] at htaken
  rw [hmade, filterMap_next hnext, List.filterMap_append, ← Multiset.coe_add, Multiset.add_comm
    (out.filterMap SectionEvent.ownNumber : Multiset U16)]
  exact htaken

theorem made (h : Numbered out dev (a ::ₘ M)) (hseq : dev'.synthSeq = dev.synthSeq + 1)
    (hnext : next.filterMap Section.ownNumber = [dev.synthSeq]) :
    Numbered (out ++ [.made dev.synthSeq]) dev' ((next : Multiset Section) + M) := by
  have hmade : (out ++ [SectionEvent.made dev.synthSeq]).countP SectionEvent.isMade =
      out.countP SectionEvent.isMade + 1 := List.countP_append
  have hown : (out ++ [SectionEvent.made dev.synthSeq]).filterMap SectionEvent.ownNumber =
      out.filterMap SectionEvent.ownNumber := by
    rw [List.filterMap_append]
    exact List.append_nil _
  refine ⟨by rw [hseq, hmade, h.counter, BitVec.ofNat_add]; rfl, ?_⟩
  rw [hmade, hown, Multiset.range_succ, Multiset.map_cons, ← h.counter, Multiset.filterMap_add,
    Multiset.filterMap_coe, hnext, Multiset.coe_singleton, Multiset.singleton_add,
    Multiset.add_cons]
  refine Multiset.cons_le_cons _ (le_trans (Multiset.add_le_add_left ?_) h.taken)
  exact Multiset.filterMap_le_filterMap _ (Multiset.le_cons_self M a)

theorem plain_ownNumber {b : Section} (h : b.Plain) : b.ownNumber = none := by
  cases b <;> first | rfl | exact h.elim

theorem exec_section (h : Numbered out dev (a ::ₘ M)) :
    Numbered (out ++ (exec a env dev).out) (exec a env dev).shared
      ((exec a env dev).next + M) := by
  have hkeep (ha : ¬ a.Leads) (hseq : (exec a env dev).shared.synthSeq = dev.synthSeq) :
      Numbered (out ++ (exec a env dev).out) (exec a env dev).shared
        ((exec a env dev).next + M) := by
    obtain ⟨hnext, hout⟩ := @exec_plain dev env a ha
    refine h.quiet hseq (fun b hb => plain_ownNumber (hnext b hb)) fun e he => ?_
    obtain ⟨seen, rfl⟩ := hout e he
    exact ⟨rfl, rfl⟩
  cases a with
  | push frame seq type event pusher =>
      obtain heq | heq | heq := exec_push frame seq type event pusher env dev
      · rw [heq]
        exact h.quiet rfl (@pushedBy_ownNumber pusher type (.error .emsgsize))
          (List.forall_mem_nil _)
      · rw [heq]
        exact h.quiet rfl (List.forall_mem_cons.mpr ⟨rfl, pushedBy_ownNumber⟩)
          (List.forall_mem_nil _)
      · have hnext : ∀ b ∈ Section.incRx frame.length ::
            .trace (.frameReceived seq type (BitVec.ofNat 32 (dev.rxFifo.length + 1))) ::
            pushedBy pusher type (.ok ()), b.ownNumber = none :=
          List.forall_mem_cons.mpr ⟨rfl, List.forall_mem_cons.mpr ⟨rfl, pushedBy_ownNumber⟩⟩
        rw [heq]
        cases pusher with
        | linkd vres => exact h.quiet rfl hnext (List.forall_mem_singleton.mpr ⟨rfl, rfl⟩)
        | driver => exact h.queued rfl hnext
  | countDrop seq type =>
      exact h.quiet rfl (List.forall_mem_cons.mpr ⟨rfl, List.forall_mem_singleton.mpr rfl⟩)
        (List.forall_mem_nil _)
  | takeSeq s =>
      have hnumber : (SafetyFrameHeader.ofBytes (dev.synthFrame env.ctx s)).sequenceId =
          dev.synthSeq := by
        rw [synthFrame, packFrame, ofBytes_toBytes_append]
        rfl
      rw [exec_takeSeq]
      refine h.made rfl ?_
      rw [← hnumber]
      rfl
  | resetLocked =>
      exact h.quiet rfl (List.forall_mem_singleton.mpr rfl) (List.forall_mem_nil _)
  | resetCpu cpu =>
      rw [exec]
      split
      · exact h.quiet rfl (List.forall_mem_singleton.mpr rfl) (List.forall_mem_nil _)
      · exact h.quiet rfl (List.forall_mem_nil _) (List.forall_mem_nil _)
  | _ => exact hkeep id ((exec_frame _ env dev).2.2 rfl)

end Numbered

theorem Opens.ownNumber {op : DevOp} {a : Section} (h : Opens op a) : a.ownNumber = none := by
  cases h with
  | plain hplain => exact Numbered.plain_ownNumber hplain
  | refused hvres => rfl
  | pushed frame seq type event vres => rfl
  | reset heq => rfl

/-- However the calls come between each other, the frames of the driver in the RX
queue have different numbers, as long as it has made no more than there are. -/
theorem synth_numbers_distinct {hbTimeoutMs : U32} {fifoDepth cpus : Nat} {dev : SafetyCoproDev}
    (hinit : safetyCoproInit hbTimeoutMs fifoDepth cpus = some dev)
    {moves : List (Move SectionEnv Section)} (hmoves : ∀ m ∈ moves, Started m)
    {out : List SectionEvent}
    (hout : out = Machine.outputs (Interleave.step exec) { shared := dev } moves)
    (hmade : out.countP SectionEvent.isMade ≤ 2 ^ 16) :
    (out.filterMap SectionEvent.ownNumber).Nodup := by
  have hrun : Numbered out (Machine.after (Interleave.step exec) { shared := dev } moves).shared
      (Machine.after (Interleave.step exec) { shared := dev } moves).pending := by
    rw [hout]
    refine Interleave.invariant (P := Numbered) ?_ ?_ ?_ hmoves
    · rintro out dev M call ⟨op, rfl⟩ h
      rw [Multiset.add_comm]
      refine ⟨h.counter, ?_⟩
      rw [Numbered.filterMap_next fun a ha => (sections_opens op a ha).ownNumber]
      exact h.taken
    · exact fun out dev M a env _ h => h.exec_section
    · exact ⟨(init_state hinit).2, le_rfl⟩
  have hinj : ((Multiset.range (out.countP SectionEvent.isMade)).map (BitVec.ofNat 16)).Nodup := by
    refine Multiset.Nodup.map_on (fun m hm n hn heq => ?_) (Multiset.nodup_range _)
    have hm := Multiset.mem_range.mp hm
    have hn := Multiset.mem_range.mp hn
    have heq := congrArg BitVec.toNat heq
    rw [BitVec.toNat_ofNat, BitVec.toNat_ofNat, Nat.mod_eq_of_lt (by omega),
      Nat.mod_eq_of_lt (by omega)] at heq
    exact heq
  exact Multiset.coe_nodup.mp
    (Multiset.nodup_of_le (le_trans (Multiset.le_add_right _ _) hrun.taken) hinj)

/-- Two faults are injected side by side, and the frame with the later number comes
into the queue first. -/
def crossedFaults : List (DevOp ⊕ Nat) :=
  [.inl (.ioctl (.injectFault (some 1))), .inl (.ioctl (.injectFault (some 2))), .inr 0, .inr 0,
    .inr 1, .inr 1, .inr 1, .inr 0]

theorem synth_numbers_distinct_crossed :
    ∃ dev out, safetyCoproInit 350 64 1 = some dev ∧
      out = Machine.outputs (Interleave.step exec) { shared := dev } (schedule crossedFaults) ∧
      out.filterMap SectionEvent.ownNumber = [1, 0] ∧
      (out.filterMap SectionEvent.ownNumber).Nodup := by
  obtain ⟨dev, hdev⟩ : ∃ dev, safetyCoproInit 350 64 1 = some dev := ⟨_, rfl⟩
  have hmade : (Machine.outputs (Interleave.step exec) { shared := dev }
      (schedule crossedFaults)).countP SectionEvent.isMade = 2 := by
    obtain rfl := Option.some.inj hdev
    decide +kernel
  refine ⟨dev, _, hdev, rfl, ?_,
    synth_numbers_distinct hdev (schedule_started _) rfl (by rw [hmade]; decide)⟩
  obtain rfl := Option.some.inj hdev
  decide +kernel

end SafetyCoproDev

end SafetyCopro
