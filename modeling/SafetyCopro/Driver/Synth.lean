import SafetyCopro.Supervisor.Frames

/-!
The frames the Linux driver makes itself, `safety_copro_kfifo.c`: a fault event
when its own heartbeat watchdog expires or a fault is injected, and a report
when the recovery work has run. They are numbered by a counter of the driver.
-/

namespace SafetyCopro

/-- `safety_synth_and_push`: the counter behind it and the frame it pushes. -/
def safetySynthAndPush (synthSeq : U16) (type : U8) (payload : List U8) (nowMs : U32) :
    U16 × Option (List U8) :=
  if payload.length > safetyMaxPayload then (synthSeq, none)
  else
    let hdr := safetyFrameInit type synthSeq (BitVec.ofNat 16 payload.length) nowMs
    (synthSeq + 1, safetyFramePack hdr payload)

/-- The two frames the driver makes, by the arguments of the call and the clock
reading that goes into the payload. -/
inductive Synth
  | faultEvent (faultType severity : U8) (detailCode : U16) (uptimeMs : U32)
  | recoveryReport (recovered newState : U8) (uptimeMs : U32)
deriving DecidableEq, Repr

namespace Synth

def type : Synth → U8
  | .faultEvent .. => safetyFrameFaultEvent
  | .recoveryReport .. => safetyFrameRecoveryReport

def payload : Synth → List U8
  | .faultEvent faultType severity detailCode uptimeMs =>
      safetyFaultEventPayload faultType severity detailCode uptimeMs
  | .recoveryReport recovered newState uptimeMs =>
      safetyRecoveryReportPayload recovered newState uptimeMs

/-- `safety_synth_fault_event` and `safety_synth_recovery_report`. -/
def push (synthSeq : U16) (s : Synth) (nowMs : U32) : U16 × Option (List U8) :=
  safetySynthAndPush synthSeq s.type s.payload nowMs

theorem payload_fits (s : Synth) : s.payload.length ≤ safetyMaxPayload := by
  have hlen : s.payload.length = 8 := by cases s <;> rfl
  rw [hlen]
  decide

theorem type_ne_heartbeat (s : Synth) : s.type ≠ safetyFrameHeartbeat := by
  cases s <;> simp [type, safetyFrameFaultEvent, safetyFrameRecoveryReport, safetyFrameHeartbeat]

theorem push_eq (synthSeq : U16) (s : Synth) (nowMs : U32) :
    s.push synthSeq nowMs =
      (synthSeq + 1, some (packFrame s.type synthSeq nowMs s.payload)) := by
  have h := s.payload_fits
  rw [push, safetySynthAndPush, if_neg (Nat.not_lt.mpr h)]
  simp only [safetyFramePack_init s.type synthSeq nowMs h, packFrame]

end Synth

end SafetyCopro
