import SafetyCopro.Firmware.Receiver
import SafetyCopro.Firmware.Transmitter
import SafetyCopro.Supervisor.Live

/-!
Firmware and live supervisor, joined by two byte streams that lose, damage and
reorder nothing. The supervisor's `ACK`s and recovery commands are all the host
sends. Both receivers take the streams apart in pieces of any size, and every
task and thread runs when it likes.
-/

namespace SafetyCopro

structure Duplex where
  firmware : Firmware := {}
  supervisor : Supervisor := {}
  /-- The bytes on the way to the supervisor, and to the firmware. -/
  up : List U8 := []
  down : List U8 := []
  /-- What the assembler keeps between two reads. -/
  buf : List U8 := []
  /-- The frames of the last read that `process_frames` has not come to yet. -/
  inbox : List ParsedFrame := []

inductive DuplexAction
  | task (t : Task) (nowMs : U32)
  -- a flag set from outside, as the shell of the debug build does
  | inject (flag : Flag)
  -- the UART interrupt with the next `n` bytes
  | receive (n : Nat)
  -- a `read` that returns the next `n` bytes
  | read (n : Nat)
  -- one turn of the loop of `process_frames`
  | frame
  | heartbeatTimeout (nowMs : I64)
  | drain
  | worker (nowMs : Int) (sent : Bool)
deriving DecidableEq

inductive Sent
  | firmware (type : U8) (payload : List U8)
  | supervisor (frame : List U8)
deriving DecidableEq

def Sent.IsNack : Sent → Prop
  | .firmware type _ => type = safetyFrameNack
  | .supervisor frame => (SafetyFrameHeader.ofBytes frame).type = safetyFrameNack

instance : (sent : Sent) → Decidable sent.IsNack
  | .firmware _ _ => inferInstanceAs (Decidable (_ = _))
  | .supervisor _ => inferInstanceAs (Decidable (_ = _))

def FirmwareEvent.sent : FirmwareEvent → Option Sent
  | .sendFrame type payload => some (.firmware type payload)
  | .pollOut _ => none

def sendOuts (effs : List Effect) : List (List U8) :=
  effs.filterMap fun
    | .sendOut frame => some frame
    | _ => none

theorem mem_sendOuts {effs : List Effect} {frame : List U8} :
    frame ∈ sendOuts effs ↔ .sendOut frame ∈ effs := by
  rw [sendOuts, List.mem_filterMap]
  refine ⟨fun ⟨eff, heff, hsent⟩ => ?_, fun h => ⟨_, h, rfl⟩⟩
  cases eff with
  | sendOut frame' =>
      obtain rfl : frame' = frame := Option.some.inj hsent
      exact heff
  | _ => cases hsent

namespace Duplex

def firmwareStep (d : Duplex) (r : Firmware × List FirmwareEvent) : Duplex × List Sent :=
  ({ d with firmware := r.1, up := d.up ++ pollOuts r.2 }, r.2.filterMap FirmwareEvent.sent)

def supervisorStep (d : Duplex) (r : Supervisor × List Effect) : Duplex × List Sent :=
  ({ d with supervisor := r.1, down := d.down ++ (sendOuts r.2).flatten },
    (sendOuts r.2).map .supervisor)

/-- One step. The event loop is one thread: it is back at `epoll_wait` only when
the frames of the last read are done. -/
def step (deadlineMs : U32) (d : Duplex) : DuplexAction → Duplex × List Sent
  | .task t nowMs => d.firmwareStep (d.firmware.run t nowMs)
  | .inject flag =>
      ({ d with firmware := { d.firmware with faults := d.firmware.faults.store true flag } }, [])
  | .receive n =>
      ({ d with firmware := d.firmware.receive (d.down.take n), down := d.down.drop n }, [])
  | .read n =>
      if d.inbox = [] then
        let (frames, buf) := FrameAssembler.feed d.buf (d.up.take n)
        ({ d with up := d.up.drop n, buf := buf, inbox := frames }, [])
      else (d, [])
  | .frame =>
      match d.inbox with
      | [] => (d, [])
      | f :: fs => { d with inbox := fs }.supervisorStep (d.supervisor.step deadlineMs (.frame f))
  | .heartbeatTimeout nowMs =>
      if d.inbox = [] then
        d.supervisorStep (d.supervisor.step deadlineMs (.heartbeatTimeout nowMs))
      else (d, [])
  | .drain =>
      if d.inbox = [] then d.supervisorStep (d.supervisor.step deadlineMs .drain) else (d, [])
  | .worker nowMs sent =>
      d.supervisorStep (d.supervisor.step deadlineMs (.worker nowMs sent))

end Duplex

/-! ### What the supervisor sends -/

/-- The frames the supervisor means to send. -/
def HostFrame (frame : List U8) : Prop :=
  (∃ seq tsMs ackedSeq, frame = buildAck seq tsMs ackedSeq) ∨
    ∃ seq ts, frame = recoveryCommand seq ts

theorem EventLoop.sendOut_dispatch {el : EventLoop} {f : ParsedFrame} {frame : List U8}
    (h : .sendOut frame ∈ (el.dispatch f).2) : frame = buildAck el.txSeq f.tsMs f.seq := by
  unfold dispatch onFaultEvent onHeartbeat at h
  repeat' split at h
  all_goals simp_all

theorem EventLoop.sendOut_processFrame {el : EventLoop} {f : ParsedFrame} (hok : f.ok)
    {frame : List U8} (h : .sendOut frame ∈ (el.processFrame f).2) : HostFrame frame := by
  obtain hbad | ⟨-, hseen⟩ | hacc := el.frame_cases f
  · exact absurd hok hbad
  · rw [processFrame_of_seen hok hseen, List.mem_singleton] at h
    cases h
  · rw [processFrame_of_accepts hacc] at h
    obtain h | h := List.mem_cons.mp h
    · cases h
    · exact Or.inl ⟨_, _, _, sendOut_dispatch h⟩

/-- On intact frames the supervisor sends `ACK`s and recovery commands only. -/
theorem Supervisor.hostFrame_of_sendOut {deadlineMs : U32} {s : Supervisor} {a : LiveAction}
    (hok : ∀ f, a = .frame f → f.ok) {frame : List U8}
    (h : .sendOut frame ∈ (s.step deadlineMs a).2) : HostFrame frame := by
  cases a with
  | frame f => exact EventLoop.sendOut_processFrame (hok f rfl) h
  | heartbeatTimeout nowMs =>
      have h' : .sendOut frame ∈ (s.loop.onHeartbeatTimeout nowMs).2 := h
      simp [EventLoop.onHeartbeatTimeout] at h'
  | worker nowMs sent =>
      obtain ⟨ev, -, hev⟩ := List.mem_filterMap.mp h
      cases ev with
      | sentCommand seq ts =>
          obtain rfl := Effect.sendOut.inj (Option.some.inj hev)
          exact Or.inr ⟨seq, ts, rfl⟩
      | _ => cases hev
  | drain =>
      have hnone : ∀ eff ∈ (s.loop.drainRecoveryReports s.reports).2, eff ≠ .sendOut frame :=
        Machine.mem_outputs (fun el rep eff heff => by
          rintro rfl
          cases ho : rep.outcome <;> simp [EventLoop.drainReport, ho] at heff) _ _
      exact absurd rfl (hnone _ h)

theorem HostFrame.type_ne_nack {frame : List U8} (h : HostFrame frame) :
    (SafetyFrameHeader.ofBytes frame).type ≠ safetyFrameNack := by
  obtain ⟨seq, tsMs, ackedSeq, rfl⟩ | ⟨seq, ts, rfl⟩ := h
  · rw [buildAck, packFrame, ofBytes_toBytes_append]
    exact (by decide : safetyFrameAck ≠ safetyFrameNack)
  · rw [recoveryCommand, buildCommand, packFrame, ofBytes_toBytes_append]
    exact (by decide : safetyFrameCommand ≠ safetyFrameNack)

/-- A command that the firmware carries out. -/
def Welcome (m : SafetyRxFrame) : Prop :=
  m.hdr.type = safetyFrameCommand → ∀ op ∈ handleFrame m, ¬ op.IsNack

theorem HostFrame.rxFeed {frame : List U8} (h : HostFrame frame) :
    ∃ m, SafetyCopro.rxFeed {} frame = ({}, [m]) ∧ Welcome m := by
  obtain ⟨seq, tsMs, ackedSeq, rfl⟩ | ⟨seq, ts, rfl⟩ := h
  · refine ⟨_, rxFeed_packFrame _ _ _ (by decide : 4 ≤ 256), fun htype => ?_⟩
    exact absurd htype (by decide : safetyFrameAck ≠ safetyFrameCommand)
  · refine ⟨_, rxFeed_packFrame _ _ _ (by decide), fun _ op hop => ?_⟩
    have hops : op ∈ clearAllInjects ++
        [.store .inSafeMode false, .reportRecovery, sendAck seq] := hop
    simp only [clearAllInjects, List.mem_append, List.mem_cons, List.not_mem_nil, or_false] at hops
    obtain (rfl | rfl | rfl) | rfl | rfl | rfl := hops
    all_goals first | exact id | exact (by decide : safetyFrameAck ≠ safetyFrameNack)

/-! ### The two streams -/

/-- The supervisor will take these bytes for intact frames, and nothing else. -/
def Upstream (buf bytes : List U8) : Prop :=
  ∃ fs, FrameAssembler.feed buf bytes = (fs, []) ∧ ∀ f ∈ fs, f.ok

theorem Upstream.append {buf bytes frame : List U8} (h : Upstream buf bytes)
    (hframe : Firmware.IsPacked frame) : Upstream buf (bytes ++ frame) := by
  obtain ⟨fs, hfeed, hok⟩ := h
  obtain ⟨type, seq, tsMs, payload, hfits, rfl⟩ := hframe
  refine ⟨fs ++ [.packed type seq tsMs payload], ?_, fun f hf => ?_⟩
  · rw [feed_append, hfeed, feed_packFrame type seq tsMs hfits]
  · obtain hf | hf := List.mem_append.mp hf
    · exact hok f hf
    · obtain rfl := List.mem_singleton.mp hf
      rfl

theorem Upstream.read {buf bytes more : List U8} (h : Upstream buf (bytes ++ more)) :
    (∀ f ∈ (FrameAssembler.feed buf bytes).1, f.ok) ∧
      Upstream (FrameAssembler.feed buf bytes).2 more := by
  obtain ⟨fs, hfeed, hok⟩ := h
  rw [feed_append, Prod.mk.injEq] at hfeed
  obtain ⟨rfl, hrest⟩ := hfeed
  exact ⟨fun f hf => hok f (List.mem_append_left _ hf),
    _, Prod.ext rfl hrest, fun f hf => hok f (List.mem_append_right _ hf)⟩

/-- The firmware will post frames that are welcome, and nothing else. -/
def Downstream (rxs : RxState) (bytes : List U8) : Prop :=
  ∃ ms, rxFeed rxs bytes = ({}, ms) ∧ ∀ m ∈ ms, Welcome m

theorem Downstream.append {rxs : RxState} {bytes frame : List U8} (h : Downstream rxs bytes)
    (hframe : HostFrame frame) : Downstream rxs (bytes ++ frame) := by
  obtain ⟨ms, hfeed, hms⟩ := h
  obtain ⟨m, hrx, hm⟩ := hframe.rxFeed
  refine ⟨ms ++ [m], ?_, fun m' hm' => ?_⟩
  · rw [rxFeed_append, hfeed, hrx]
  · obtain hm' | hm' := List.mem_append.mp hm'
    · exact hms m' hm'
    · obtain rfl := List.mem_singleton.mp hm'
      exact hm

theorem Downstream.flatten {rxs : RxState} {bytes : List U8} (h : Downstream rxs bytes)
    {frames : List (List U8)} (hframes : ∀ frame ∈ frames, HostFrame frame) :
    Downstream rxs (bytes ++ frames.flatten) := by
  induction frames generalizing bytes with
  | nil => rwa [List.flatten_nil, List.append_nil]
  | cons frame frames ih =>
      rw [List.flatten_cons, ← List.append_assoc]
      exact ih (h.append (hframes frame List.mem_cons_self)) fun frame' hframe' =>
        hframes frame' (List.mem_cons_of_mem _ hframe')

theorem Downstream.receive {rxs : RxState} {bytes more : List U8}
    (h : Downstream rxs (bytes ++ more)) :
    (∀ m ∈ (rxFeed rxs bytes).2, Welcome m) ∧ Downstream (rxFeed rxs bytes).1 more := by
  obtain ⟨ms, hfeed, hms⟩ := h
  rw [rxFeed_append, Prod.mk.injEq] at hfeed
  obtain ⟨hrest, rfl⟩ := hfeed
  exact ⟨fun m hm => hms m (List.mem_append_left _ hm),
    _, Prod.ext hrest rfl, fun m hm => hms m (List.mem_append_right _ hm)⟩

theorem Firmware.mem_foldl_msgqPut {frames msgq : List SafetyRxFrame} {m : SafetyRxFrame}
    (h : m ∈ frames.foldl msgqPut msgq) : m ∈ msgq ∨ m ∈ frames := by
  induction frames generalizing msgq with
  | nil => exact Or.inl h
  | cons frame frames ih =>
      obtain h | h := ih h
      · rw [msgqPut] at h
        split at h
        · obtain h | h := List.mem_append.mp h
          · exact Or.inl h
          · exact Or.inr (List.mem_cons.mpr (Or.inl (List.mem_singleton.mp h)))
        · exact Or.inl h
      · exact Or.inr (List.mem_cons_of_mem _ h)

end SafetyCopro
