import Mathlib.Data.Rat.Init
import Mathlib.Data.Nat.Notation

/-!
# Shared types and outbound ports of the transactional engine

The ports are the boundary to code which the engine does not own.  A port is
modelled by what its awaited methods answer: whether they return or raise,
and what they do when the awaiting task is cancelled.  Saga name and
correlation id are constant within one run and are not repeated in the calls.
-/

namespace PyFly.Transactional

inductive StepStatus
  | pending
  | running
  | done
  | failed
  | compensated
  deriving DecidableEq, Repr

inductive CompensationPolicy
  | strictSequential
  | groupedParallel
  | retryWithBackoff
  | circuitBreaker
  | bestEffortParallel
  deriving DecidableEq, Repr

/-- A call of a `TransactionalEventsPort` method.  `attempt` counts the earlier
invocations of the same compensation, so that a port may answer the calls for
different attempts differently. -/
inductive PortCall (ι E : Type)
  | onStart
  | onStepSuccess (step : ι) (attempts : ℕ) (latencyMs : ℚ)
  | onStepFailed (step : ι) (error : E) (attempts : ℕ) (latencyMs : ℚ)
  | onCompensated (step : ι) (error : Option E) (attempt : ℕ)
  | onCompleted (success : Bool)

/-- What a suspended callee does when `CancelledError` is thrown into it. -/
inductive CancelReply (V E : Type)
  | propagates
  | returns (value : V)
  | raises (error : E)

inductive Fault (E : Type)
  | exception (error : E)
  | cancelled

/-- `reply call = none` when the awaited method returns, `some error` when it
raises. -/
structure EventsPort (ι E : Type) where
  reply : PortCall ι E → Option E
  onCancel : PortCall ι E → CancelReply Unit E

structure PersistencePort (E : Type) where
  persistState : Option E
  persistStateCancelled : CancelReply Unit E
  markCompleted : Bool → Option E
  markCompletedCancelled : Bool → CancelReply Unit E

/-- A port whose methods never raise.  Being cancelled in the middle of a call
is not raising: `CancelledError` may still pass through. -/
structure EventsPort.NeverRaises {ι E : Type} (port : EventsPort ι E) :
    Prop where
  reply : ∀ call, port.reply call = none
  onCancel : ∀ call error, port.onCancel call ≠ .raises error

end PyFly.Transactional
