import SafetyCopro.Lib.Text

/-!
The supervisor's health state machine, `health_state_machine.cpp`. The
transition table is the source's: a pair it does not list leaves the state as
it is and is reported as invalid.
-/

namespace SafetyCopro

inductive HealthState
  | booting | healthy | degraded | recovering | failed | safeMode
deriving DecidableEq, Repr

inductive HealthEvent
  | heartbeatOk | heartbeatTimeout | recoverySent | heartbeatRestored | recoveryFailed
  | criticalFault
deriving DecidableEq, Repr

structure TransitionResult where
  valid : Bool
  fromState : HealthState
  toState : HealthState
  event : HealthEvent
deriving DecidableEq, Repr

def stateName : HealthState → Text
  | .booting => Text.lit "BOOTING"
  | .healthy => Text.lit "HEALTHY"
  | .degraded => Text.lit "DEGRADED"
  | .recovering => Text.lit "RECOVERING"
  | .failed => Text.lit "FAILED"
  | .safeMode => Text.lit "SAFE_MODE"

def eventName : HealthEvent → Text
  | .heartbeatOk => Text.lit "HEARTBEAT_OK"
  | .heartbeatTimeout => Text.lit "HEARTBEAT_TIMEOUT"
  | .recoverySent => Text.lit "RECOVERY_SENT"
  | .heartbeatRestored => Text.lit "HEARTBEAT_RESTORED"
  | .recoveryFailed => Text.lit "RECOVERY_FAILED"
  | .criticalFault => Text.lit "CRITICAL_FAULT"

namespace HealthState

/-- The `switch` of `HealthStateMachine::apply`. -/
def target : HealthState → HealthEvent → HealthState
  | .booting, .heartbeatOk => .healthy
  | .healthy, .heartbeatTimeout => .degraded
  | .healthy, .criticalFault => .safeMode
  | .degraded, .recoverySent => .recovering
  | .degraded, .recoveryFailed => .failed
  | .degraded, .criticalFault => .safeMode
  | .recovering, .heartbeatRestored => .healthy
  | .recovering, .recoveryFailed => .failed
  | s, _ => s

/-- The new state is `toState`; the hook runs exactly when `valid`. -/
def apply (s : HealthState) (event : HealthEvent) : TransitionResult where
  valid := s.target event ≠ s
  fromState := s
  toState := s.target event
  event := event

@[simp] theorem apply_toState (s : HealthState) (e : HealthEvent) :
    (s.apply e).toState = s.target e := rfl

@[simp] theorem apply_valid (s : HealthState) (e : HealthEvent) :
    (s.apply e).valid = true ↔ s.target e ≠ s := by simp [apply]

/-- `FAILED` and `SAFE_MODE` have no way out. -/
def Terminal (s : HealthState) : Prop := s = .failed ∨ s = .safeMode

instance (s : HealthState) : Decidable s.Terminal := inferInstanceAs (Decidable (_ ∨ _))

theorem target_of_terminal {s : HealthState} (h : s.Terminal) (e : HealthEvent) :
    s.target e = s := by
  obtain rfl | rfl := h <;> rfl

/-- A critical fault stops the machine from every state past boot except
`RECOVERING`, where the table has no entry for it. -/
theorem target_criticalFault_terminal_iff {s : HealthState} (h : s ≠ .booting) :
    (s.target .criticalFault).Terminal ↔ s ≠ .recovering := by
  revert h
  cases s <;> decide

end HealthState

end SafetyCopro
