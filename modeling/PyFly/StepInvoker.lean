import PyFly.SagaTopology

/-!
# Outcomes of the awaited calls

Everything the engine awaits but does not implement is answered by an
`Environment`: attempts of actions, invocations of compensations, ports, and
the clock.  An attempt returns a value or raises an exception; a
`CancelledError` only enters a task because its cancellation was requested.
A synchronous callable is awaited like a coroutine, which only adds
interleavings to those of the source.
-/

namespace PyFly.Saga

open Library Transactional

variable {ι V E : Type}

/-- What an attempt does when nobody interferes, and whether it is still
running when the timeout of its step expires. -/
structure AttemptOutcome (V E : Type) where
  reply : Except E V
  overruns : Bool

structure Environment (ι V E : Type) where
  attempt : ι → ℕ → AttemptOutcome V E
  attemptCancelled : ι → ℕ → CancelReply V E
  compensation : ι → ℕ → Except E V
  compensationCancelled : ι → ℕ → CancelReply V E
  latencyMs : ι → ℕ → ℚ
  uniform : ι → ℕ → ℚ
  noStepMethod : ι → E
  noCompensationMethod : ι → E
  timeoutError : E
  topologyError : TopologyError → E
  events : Option (EventsPort ι E)
  errorHandler : Option (ι → E → Option E)
  errorHandlerCancelled : ι → E → CancelReply Unit E
  persistence : Option (PersistencePort E)
  startedAt : ℚ
  completedAt : ℚ

/-- The environment in which every call returns a given value, nobody catches
a cancellation and no port is configured. -/
def Environment.obliging (value : V) (error : E) : Environment ι V E where
  attempt := fun _ _ => ⟨.ok value, false⟩
  attemptCancelled := fun _ _ => .propagates
  compensation := fun _ _ => .ok value
  compensationCancelled := fun _ _ => .propagates
  latencyMs := fun _ _ => 0
  uniform := fun _ _ => 0
  noStepMethod := fun _ => error
  noCompensationMethod := fun _ => error
  timeoutError := error
  topologyError := fun _ => error
  events := none
  errorHandler := none
  errorHandlerCancelled := fun _ _ => .propagates
  persistence := none
  startedAt := 0
  completedAt := 0

def Environment.failing [DecidableEq ι] (failed : ι) (value : V) (error : E) :
    Environment ι V E :=
  { Environment.obliging value error with
    attempt := fun step _ =>
      if step = failed then ⟨.error error, false⟩ else ⟨.ok value, false⟩ }

/-- How the await of `invoke_step` ends. -/
inductive ActionReply (V E : Type)
  | returned (value : V)
  | raised (error : E)
  | timedOut
  | cancelled

/-- The awaited `StepInvoker.invoke_step`, wrapped in `wait_for` when the step
has a timeout.  The future of a thread takes a cancellation at once; a
coroutine may catch it and go on. -/
def Environment.awaitAttempt (env : Environment ι V E)
    (stepDef : StepDefinition ι) (attempt : ℕ) (cancelRequested : Bool) :
    ActionReply V E :=
  match stepDef.stepMethod with
  | none =>
    if cancelRequested then .cancelled
    else .raised (env.noStepMethod stepDef.id)
  | some _ =>
    let outcome := env.attempt stepDef.id attempt
    if cancelRequested then
      if stepDef.offloaded then .cancelled
      else
        match env.attemptCancelled stepDef.id attempt with
        | .propagates => .cancelled
        | .returns value => .returned value
        | .raises error => .raised error
    else if 0 < stepDef.timeoutMs ∧ outcome.overruns then .timedOut
    else
      match outcome.reply with
      | .ok value => .returned value
      | .error error => .raised error

/-- `StepInvoker.invoke_compensation` without interference. -/
def Environment.invokeCompensation (env : Environment ι V E)
    (stepDef : StepDefinition ι) (attempt : ℕ) : Except E V :=
  match stepDef.compensateMethod with
  | none => .error (env.noCompensationMethod stepDef.id)
  | some _ => env.compensation stepDef.id attempt

def Environment.backoffDelayMs (env : Environment ι V E)
    (stepDef : StepDefinition ι) (attempt : ℕ) (backoffMs : ℚ) : ℚ :=
  if stepDef.jitter then
    backoffMs * (1 + stepDef.jitterFactor * env.uniform stepDef.id attempt)
  else backoffMs

def portReply (port : EventsPort ι E) (call : PortCall ι E)
    (cancelRequested : Bool) : CancelReply Unit E :=
  if cancelRequested then port.onCancel call
  else
    match port.reply call with
    | none => .returns ()
    | some error => .raises error

structure Environment.QuietPorts (env : Environment ι V E) : Prop where
  events : ∀ port, env.events = some port → port.NeverRaises
  errorHandler : ∀ handle, env.errorHandler = some handle →
    ∀ step error, handle step error = none
  errorHandlerCancelled : ∀ step error failure,
    env.errorHandlerCancelled step error ≠ .raises failure

end PyFly.Saga
