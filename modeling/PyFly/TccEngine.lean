import PyFly.TccContract

/-!
# The TCC engine

`TccEngine.execute` calls its ports around the orchestrator and builds the
result from the context.  The result tells what happened only when nothing
failed: no error of a phase is ever recorded.
-/

namespace PyFly.Tcc

open Library Transactional

variable {ι V E : Type}

/-- What one call of `TccEngine.execute` is given besides the TCC. -/
structure TccRequest (V : Type) where
  correlationId : String
  headers : Dict String String
  inputData : Option V

def TccRequest.context (request : TccRequest V) (tccDef : TccDefinition ι) : TccContext ι V :=
  TccContext.create request.correlationId tccDef.name request.headers

namespace TccRun

/-- An await whose value is not used. -/
def perform (query : TccQuery ι V E) : TccRun ι V E Unit := do
  let _ ← Async.ask query
  pure ()

def notify (env : TccEnvironment ι V E) (call : PortCall ι E) : TccRun ι V E Unit :=
  match env.events with
  | none => pure ()
  | some _ => perform (.notify call)

def persistState (env : TccEnvironment ι V E) : TccRun ι V E Unit :=
  match env.persistence with
  | none => pure ()
  | some _ => perform (.persistState env.startedAt)

def markCompleted (env : TccEnvironment ι V E) (success : Bool) : TccRun ι V E Unit :=
  match env.persistence with
  | none => pure ()
  | some _ => perform (.markCompleted success)

def settle {α : Type} (code : TccRun ι V E α) : TccRun ι V E (Except (Fault E) α) :=
  Coroutine.bind code fun result => Coroutine.done (.ok result)

section Engine

variable [DecidableEq ι] (env : TccEnvironment ι V E)
variable (tccDef : TccDefinition ι)

def buildResult (ctx : TccContext ι V) (success : Bool) (error : Option E)
    (failedParticipantId : Option ι) : TccResult ι V E where
  correlationId := ctx.correlationId
  tccName := tccDef.name
  success := success
  finalPhase := ctx.currentPhase
  tryResults := ctx.tryResults
  participantResults := tccDef.participants.mapValues fun participant _ =>
    { participantId := participant
      tryResult := ctx.getTryResult participant
      tryError := none
      confirmError := none
      cancelError := none
      finalPhase :=
        (ctx.participantStatuses.get? participant).getD .tryPhase
      latencyMs := 0 }
  startedAt := env.startedAt
  completedAt := env.completedAt
  error := error
  failedParticipantId := failedParticipantId

/-- The local `success` when the `finally` clause runs. -/
def succeeded (settled : Except (Fault E) (TccContext ι V × Except E (Bool × Option ι))) :
    Bool :=
  match settled with
  | .ok (_, .ok (success, _)) => success
  | _ => false

/-- The end of `TccEngine.execute` after the `finally` clause.  The last case
never occurs: the loops of the orchestrator do not raise. -/
def conclude (start : TccContext ι V)
    (settled : Except (Fault E) (TccContext ι V × Except E (Bool × Option ι))) :
    TccRun ι V E (TccResult ι V E) :=
  match settled with
  | .ok (ctx, .ok (success, failed)) =>
    pure (buildResult env tccDef ctx success none failed)
  | .ok (ctx, .error error) =>
    pure (buildResult env tccDef ctx false (some error) none)
  | .error .cancelled => Async.throw .cancelled
  | .error (.exception error) =>
    pure (buildResult env tccDef start false (some error) none)

def executeTcc (request : TccRequest V) : TccRun ι V E (TccResult ι V E) := do
  notify env .onStart
  persistState env
  let settled ← settle
    (execute env tccDef (request.context tccDef) request.inputData)
  notify env (.onCompleted (succeeded settled))
  markCompleted env (succeeded settled)
  conclude env tccDef (request.context tccDef) settled

end Engine

end TccRun

end PyFly.Tcc
