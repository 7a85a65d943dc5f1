import PyFly.Library.Gather
import PyFly.StepInvoker

/-!
# The compensator

`SagaCompensator.compensate` as a coroutine over the calls it awaits, one
definition for each policy.  `asyncio.gather` runs a coroutine for each of its
steps; the results it collects decide when, and with what, it goes on.
-/

namespace PyFly.Saga

open Library Transactional

variable {ι V E : Type}

def defaultCompensationRetry : ℤ := 3

def defaultCompensationBackoffMs : ℤ := 1000

def circuitBreakerThreshold : ℕ := 3

/-- The awaits of the compensator.  `scheduled` is the first turn of a
gathered task on the event loop. -/
inductive CompensationQuery (ι E : Type)
  | scheduled (step : ι)
  | invoke (stepDef : StepDefinition ι) (attempt : ℕ)
  | notify (step : ι) (error : Option E) (attempt : ℕ)
  | handle (step : ι) (error : E)
  | sleep (step : ι) (attempt : ℕ) (delayMs : ℤ)
  | gather (steps : List (StepDefinition ι)) (returnExceptions : Bool)

abbrev CompensationReply (V E : Type) := Except (Fault E) (Option V)

abbrev Compensating (ι V E : Type) :=
  Async (CompensationQuery ι E) (CompensationReply V E) (Fault E)

abbrev CompensationSignal (ι V E : Type) :=
  Signal (CompensationQuery ι E) (CompensationReply V E)

namespace Compensating

/-- An await whose value is not used. -/
def perform (query : CompensationQuery ι E) : Compensating ι V E Unit := do
  let _ ← Async.ask query
  pure ()

def exceptException {α : Type} (handler : E → Compensating ι V E α) :
    Fault E → Compensating ι V E α
  | .exception error => handler error
  | .cancelled => Async.throw .cancelled

def emitCompensated (env : Environment ι V E) (step : ι) (attempt : ℕ)
    (error : Option E) : Compensating ι V E Unit :=
  match env.events with
  | none => pure ()
  | some _ => perform (.notify step error attempt)

def handleError (env : Environment ι V E) (step : ι) (error : E) : Compensating ι V E Unit :=
  match env.errorHandler with
  | none => pure ()
  | some _ => perform (.handle step error)

def invokeOne (env : Environment ι V E) (stepDef : StepDefinition ι)
    (attempt : ℕ) (raiseOnError skipErrorHandler : Bool) :
    Compensating ι V E Unit :=
  Async.catching (do
      perform (.invoke stepDef attempt)
      emitCompensated env stepDef.id attempt none)
    (exceptException fun error => do
      emitCompensated env stepDef.id attempt (some error)
      if skipErrorHandler then pure ()
      else handleError env stepDef.id error
      if raiseOnError then Async.throw (.exception error) else pure ())

/-- `_compensate_one`; the exception it returns only reaches a log line. -/
def compensateOne (env : Environment ι V E) (stepDef : StepDefinition ι) :
    Compensating ι V E Unit :=
  Async.catching (do
      perform (.invoke stepDef 0)
      emitCompensated env stepDef.id 0 none)
    (exceptException fun error => do
      emitCompensated env stepDef.id 0 (some error)
      handleError env stepDef.id error)

section Policies

variable [DecidableEq ι] (env : Environment ι V E) (saga : SagaDefinition ι)

def strictSequential (completed : List ι) : Compensating ι V E Unit :=
  Async.forEach completed.reverse fun step =>
    match saga.compensable? step with
    | none => pure ()
    | some stepDef => invokeOne env stepDef 0 true false

def layerSteps (completed layer : List ι) : List (StepDefinition ι) :=
  (layer.filter fun step => step ∈ completed).filterMap saga.compensable?

def groupedParallel (completed : List ι) (layers : List (List ι)) : Compensating ι V E Unit :=
  Async.forEach layers.reverse fun layer =>
    if (layerSteps saga completed layer).isEmpty then pure ()
    else perform (.gather (layerSteps saga completed layer) false)

/-- The loop body of `for attempt in range(max_retries)`, and the `last_error`
it leaves behind. -/
def retryAttempt (stepDef : StepDefinition ι) (maxRetries backoffMs : ℤ)
    (attempt : ℕ) : Compensating ι V E (Option E) :=
  Async.catching (do
      invokeOne env stepDef attempt true true
      pure none)
    (exceptException fun error => do
      if (attempt : ℤ) < maxRetries - 1 then
        perform (.sleep stepDef.id attempt (backoffMs * 2 ^ attempt))
      else pure ()
      pure (some error))

def retryAttempts (stepDef : StepDefinition ι) (maxRetries backoffMs : ℤ) :
    ℕ → ℕ → Option E → Compensating ι V E (Option E)
  | 0, _, lastError => pure lastError
  | remaining + 1, attempt, _ => do
      let lastError ← retryAttempt env stepDef maxRetries backoffMs attempt
      match lastError with
      | none => pure none
      | some error =>
        retryAttempts stepDef maxRetries backoffMs remaining (attempt + 1) (some error)

def compensationMaxRetries (stepDef : StepDefinition ι) : ℤ :=
  stepDef.compensationRetry.getD defaultCompensationRetry

def compensationBackoff (stepDef : StepDefinition ι) : ℤ :=
  stepDef.compensationBackoffMs.getD defaultCompensationBackoffMs

/-- The loop body of `_retry_with_backoff`. -/
def retryOne (stepDef : StepDefinition ι) : Compensating ι V E Unit := do
  let maxRetries := compensationMaxRetries stepDef
  let lastError ← retryAttempts env stepDef maxRetries
    (compensationBackoff stepDef) maxRetries.toNat 0 none
  match lastError with
  | none => pure ()
  | some error => do
      emitCompensated env stepDef.id maxRetries.toNat (some error)
      handleError env stepDef.id error
      Async.throw (.exception error)

def retryWithBackoff (completed : List ι) : Compensating ι V E Unit :=
  Async.forEach completed.reverse fun step =>
    match saga.compensable? step with
    | none => pure ()
    | some stepDef => retryOne env stepDef

/-- The loop of `_circuit_breaker` over the steps still to come. -/
def circuitBreakerLoop : ℕ → List ι → Compensating ι V E Unit
  | _, [] => pure ()
  | consecutiveFailures, step :: rest =>
    if circuitBreakerThreshold ≤ consecutiveFailures then pure ()
    else
      match saga.compensable? step with
      | none => circuitBreakerLoop consecutiveFailures rest
      | some stepDef => do
          let failures ← Async.catching
            (do
              invokeOne env stepDef 0 true false
              pure 0)
            (exceptException fun _ => pure (consecutiveFailures + 1))
          circuitBreakerLoop failures rest

def circuitBreaker (completed : List ι) : Compensating ι V E Unit :=
  circuitBreakerLoop env saga 0 completed.reverse

/-- Awaiting a gathering of nothing does not suspend. -/
def bestEffortParallel (completed : List ι) : Compensating ι V E Unit :=
  if (completed.filterMap saga.compensable?).isEmpty then pure ()
  else perform (.gather (completed.filterMap saga.compensable?) true)

def compensate (policy : CompensationPolicy) (completed : List ι)
    (layers : List (List ι)) : Compensating ι V E Unit :=
  if completed.isEmpty then pure ()
  else
    match policy with
    | .strictSequential => strictSequential env saga completed
    | .groupedParallel => groupedParallel saga completed layers
    | .retryWithBackoff => retryWithBackoff env saga completed
    | .circuitBreaker => circuitBreaker env saga completed
    | .bestEffortParallel => bestEffortParallel saga completed

end Policies

end Compensating

/-! ## The replies -/

def CancelReply.toReply {α : Type} : CancelReply α E → Except (Fault E) (Option α)
  | .propagates => .error .cancelled
  | .returns value => .ok (some value)
  | .raises error => .error (.exception error)

namespace Environment

variable (env : Environment ι V E)

/-- The exception with which `on_compensated` answers. -/
def compensatedFailure (step : ι) (error : Option E) (attempt : ℕ) : Option E :=
  env.events.bind fun port => port.reply (.onCompensated step error attempt)

def handlerFailure (step : ι) (error : E) : Option E :=
  env.errorHandler.bind fun handle => handle step error

/-- The exception raised by a whole `_invoke_one`, if any. -/
def invokeOneFailure (stepDef : StepDefinition ι) (attempt : ℕ)
    (skipErrorHandler : Bool) : Option E :=
  let raising (error : E) : E :=
    match env.compensatedFailure stepDef.id (some error) attempt with
    | some failure => failure
    | none =>
      if skipErrorHandler then error
      else (env.handlerFailure stepDef.id error).getD error
  match env.invokeCompensation stepDef attempt with
  | .error error => some (raising error)
  | .ok _ => (env.compensatedFailure stepDef.id none attempt).map raising

def raisedReply : Option E → CompensationReply V E
  | none => .ok none
  | some error => .error (.exception error)

def compensationAnswer : CompensationQuery ι E → CompensationReply V E
  | .scheduled _ | .sleep _ _ _ => .ok none
  | .invoke stepDef attempt =>
    match env.invokeCompensation stepDef attempt with
    | .ok value => .ok (some value)
    | .error error => .error (.exception error)
  | .notify step error attempt =>
    raisedReply (env.compensatedFailure step error attempt)
  | .handle step error => raisedReply (env.handlerFailure step error)
  | .gather _ true => .ok none
  | .gather steps false =>
    raisedReply (steps.findSome? fun stepDef =>
      env.invokeOneFailure stepDef 0 false)

def compensationInterrupt : CompensationQuery ι E → CompensationReply V E
  | .scheduled _ | .sleep _ _ _ | .gather _ _ => .error .cancelled
  | .invoke stepDef attempt =>
    CancelReply.toReply (env.compensationCancelled stepDef.id attempt)
  | .notify step error attempt =>
    match env.events with
    | none => .ok none
    | some port =>
      (CancelReply.toReply
        (port.onCancel (.onCompensated step error attempt))).map fun _ => none
  | .handle step error =>
    (CancelReply.toReply (env.errorHandlerCancelled step error)).map fun _ => none

def gatheredTasks : CompensationQuery ι E → Option (List (Compensating ι V E Unit))
  | .gather steps true =>
    some (steps.map fun stepDef => do
      Compensating.perform (.scheduled stepDef.id)
      Compensating.compensateOne env stepDef)
  | .gather steps false =>
    some (steps.map fun stepDef => do
      Compensating.perform (.scheduled stepDef.id)
      Compensating.invokeOne env stepDef 0 true false)
  | _ => none

def taskFault : Option (Except (Fault E) Unit) → Option (Fault E)
  | some (.error fault) => some fault
  | _ => none

/-- `asyncio.gather`: without `return_exceptions` the first task that fails
decides; `choice` tells which of the failed tasks was first. -/
def gatherReply (query : CompensationQuery ι E) (interrupted : Bool)
    (choice : ℕ) (results : List (Option (Except (Fault E) Unit))) :
    Option (CompensationReply V E) :=
  let whenAllEnded : Option (CompensationReply V E) :=
    if results.all Option.isSome then
      some (if interrupted then .error .cancelled else .ok none)
    else none
  match query with
  | .gather _ true => whenAllEnded
  | .gather _ false =>
    match (results.filterMap taskFault).rotate choice with
    | fault :: _ => some (.error fault)
    | [] => whenAllEnded
  | _ => none

def compensationRules : GatherRules (CompensationQuery ι E) (CompensationReply V E)
      (Except (Fault E) Unit) where
  answer := env.compensationAnswer
  interrupt := env.compensationInterrupt
  children := env.gatheredTasks
  collect := gatherReply

end Environment

def compensation [DecidableEq ι] (env : Environment ι V E)
    (saga : SagaDefinition ι) (policy : CompensationPolicy)
    (completed : List ι) (layers : List (List ι))
    (schedule : List CrewPick) :=
  env.compensationRules.execute
    (Compensating.compensate env saga policy completed layers) schedule

end PyFly.Saga
