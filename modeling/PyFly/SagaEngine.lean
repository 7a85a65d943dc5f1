import PyFly.ExecutionOrchestrator
import PyFly.Compensator

/-!
# The saga engine

`SagaEngine.execute` calls its ports, awaits the orchestrator and, after a
failure, the compensator, and runs the `finally` clause in every case.  Tasks
which an earlier phase has left behind can go on in any later one.
-/

namespace PyFly.Saga

open Library Transactional

variable {ι V E : Type}

/-- The local variables `success` and `error`, and whether a `CancelledError`
is in flight while the `finally` clause runs. -/
structure Verdict (E : Type) where
  success : Bool
  error : Option E
  cancelled : Bool

inductive EngineOutcome (ι V E : Type)
  | returned (result : SagaResult ι V E)
  | raised (error : E)
  | cancelled

/-- The await `execute` is suspended at. -/
inductive EnginePhase (ι V E : Type)
  | starting
  | persisting
  | executing
  | compensating (error : E)
  | completing (verdict : Verdict E)
  | marking (verdict : Verdict E)
  | finished (outcome : EngineOutcome ι V E)

abbrev CompensationCrew (ι V E : Type) :=
  Crew (CompensationQuery ι E) (CompensationReply V E)
    (Except (Fault E) Unit) (Except (Fault E) Unit)

def idleCrew : CompensationCrew ι V E := ⟨.done (.ok ()), false, [], []⟩

structure Engine (ι V E : Type) where
  phase : EnginePhase ι V E
  orchestration : Orchestration ι V E
  crew : CompensationCrew ι V E

inductive EngineEvent (ι V E : Type)
  | notified (call : PortCall ι E)
  | statePersisted
  | step (event : StepEvent ι V E)
  | compensationEntered (completed : List ι)
  | compensation (signal : CompensationSignal ι V E)
  | marked (success : Bool)

inductive EnginePick (ι : Type)
  | main (choice : ℕ)
  | task (step : ι)
  | thread (index : ℕ)
  | child (index : ℕ)
  | orphan (index : ℕ)
  | cancelCaller
  deriving DecidableEq

/-- The answers of `persist_state` and of `mark_completed`, cancelled in the
middle or not. -/
def persistReply (port : PersistencePort E) (cancelRequested : Bool) : CancelReply Unit E :=
  if cancelRequested then port.persistStateCancelled
  else
    match port.persistState with
    | none => .returns ()
    | some error => .raises error

def markReply (port : PersistencePort E) (success cancelRequested : Bool) :
    CancelReply Unit E :=
  if cancelRequested then port.markCompletedCancelled success
  else
    match port.markCompleted success with
    | none => .returns ()
    | some error => .raises error

section Results

variable [DecidableEq ι]

/-- `_build_result`, for one step. -/
def stepOutcome (env : Environment ι V E) (ctx : SagaContext ι V E)
    (success : Bool) (error : Option E) (step : ι) : StepOutcome V E where
  status := (ctx.stepStatuses.get? step).getD .pending
  attempts := (ctx.stepAttempts.get? step).getD 0
  latencyMs := (ctx.stepLatenciesMs.get? step).getD 0
  result := ctx.stepResults.get? step
  error :=
    if success then none
    else if ctx.stepStatuses.get? step = some .failed then error
    else none
  compensated := (ctx.compensationResults.get? step).isSome
  startedAt := (ctx.stepStartedAt.get? step).getD env.startedAt
  compensationResult := ctx.compensationResults.get? step
  compensationError := ctx.compensationErrors.get? step

def buildResult (saga : SagaDefinition ι) (env : Environment ι V E)
    (ctx : SagaContext ι V E) (success : Bool) (error : Option E) :
    SagaResult ι V E where
  sagaName := saga.name
  correlationId := ctx.correlationId
  startedAt := env.startedAt
  completedAt := env.completedAt
  success := success
  error := error
  headers := ctx.headers
  steps := saga.steps.mapValues fun step _ =>
    stepOutcome env ctx success error step

end Results

namespace Engine

variable [LinearOrder ι]
variable (saga : SagaDefinition ι) (env : Environment ι V E)
variable (policy : CompensationPolicy)

/-- The end of `execute`, once the `finally` clause is through. -/
def conclude (verdict : Verdict E) (ctx : SagaContext ι V E) : EngineOutcome ι V E :=
  if verdict.cancelled then .cancelled
  else .returned (buildResult saga env ctx verdict.success verdict.error)

def enterMarking (verdict : Verdict E) (engine : Engine ι V E) :
    Engine ι V E × List (EngineEvent ι V E) :=
  match env.persistence with
  | none =>
    ({ engine with
      phase := .finished (conclude saga env verdict
        engine.orchestration.ctx) }, [])
  | some _ =>
    ({ engine with phase := .marking verdict }, [.marked verdict.success])

/-- The beginning of the `finally` clause. -/
def enterCompleting (verdict : Verdict E) (engine : Engine ι V E) :
    Engine ι V E × List (EngineEvent ι V E) :=
  match env.events with
  | none => enterMarking saga env verdict engine
  | some _ =>
    ({ engine with phase := .completing verdict },
      [.notified (.onCompleted verdict.success)])

/-- The verdict after the compensator has ended: an exception is only logged,
a `CancelledError` goes on. -/
def afterCompensation (error : E) : Except (Fault E) Unit → Verdict E
  | .ok _ => ⟨false, some error, false⟩
  | .error (.exception _) => ⟨false, some error, false⟩
  | .error .cancelled => ⟨false, some error, true⟩

def settleCompensation (error : E) (engine : Engine ι V E) :
    Engine ι V E × List (EngineEvent ι V E) :=
  match engine.crew.main with
  | .await _ _ => (engine, [])
  | .done result =>
    enterCompleting saga env (afterCompensation error result) engine

/-- The `except Exception` clause: derive the completed steps from the status
dictionary and call the compensator. -/
def enterCompensating (error : E) (engine : Engine ι V E) :
    Engine ι V E × List (EngineEvent ι V E) :=
  let ctx := engine.orchestration.ctx
  let started := env.compensationRules.start
    (Compensating.compensate env saga policy ctx.doneSteps ctx.topologyLayers)
  let settled := settleCompensation saga env error
    { engine with phase := .compensating error, crew := started.1 }
  (settled.1, .compensationEntered ctx.doneSteps :: (started.2.map .compensation ++ settled.2))

def settleExecution (engine : Engine ι V E) : Engine ι V E × List (EngineEvent ι V E) :=
  match engine.orchestration.main with
  | .waiting | .draining _ => (engine, [])
  | .returned => enterCompleting saga env ⟨true, none, false⟩ engine
  | .raised error => enterCompensating saga env policy error engine
  | .cancelled => enterCompleting saga env ⟨false, none, true⟩ engine

def enterExecuting (engine : Engine ι V E) : Engine ι V E × List (EngineEvent ι V E) :=
  settleExecution saga env policy { engine with
      phase := .executing
      orchestration :=
        Orchestration.start saga env engine.orchestration.ctx }

def enterPersisting (engine : Engine ι V E) : Engine ι V E × List (EngineEvent ι V E) :=
  match env.persistence with
  | none => enterExecuting saga env policy engine
  | some _ => ({ engine with phase := .persisting }, [.statePersisted])

def blank (ctx : SagaContext ι V E) : Engine ι V E where
  phase := .starting
  orchestration :=
    { ctx := ctx
      completed := []
      tasks := fun _ => StepTask.absent
      permits := none
      position := 0
      main := .waiting
      threads := [] }
  crew := idleCrew

/-- `execute` up to its first await. -/
def start (ctx : SagaContext ι V E) : Engine ι V E × List (EngineEvent ι V E) :=
  match env.events with
  | none => enterPersisting saga env policy (blank ctx)
  | some _ => (blank ctx, [.notified .onStart])

/-- A port call of `execute` itself: what it raises ends `execute`. -/
def afterCall (engine : Engine ι V E) (next : Engine ι V E × List (EngineEvent ι V E)) :
    CancelReply Unit E → Engine ι V E × List (EngineEvent ι V E)
  | .returns _ => next
  | .raises error => ({ engine with phase := .finished (.raised error) }, [])
  | .propagates => ({ engine with phase := .finished .cancelled }, [])

/-- Resume `execute` at its await, with a `CancelledError` or without. -/
def resumeMain (cancelled : Bool) (choice : ℕ) (engine : Engine ι V E) :
    Option (Engine ι V E × List (EngineEvent ι V E)) :=
  match engine.phase with
  | .starting =>
    env.events.map fun port =>
      afterCall engine (enterPersisting saga env policy engine)
        (portReply port .onStart cancelled)
  | .persisting =>
    env.persistence.map fun port =>
      afterCall engine (enterExecuting saga env policy engine) (persistReply port cancelled)
  | .executing =>
    (if cancelled then engine.orchestration.cancelCaller
      else engine.orchestration.resumeMain saga choice).map
      fun orchestration =>
        settleExecution saga env policy { engine with orchestration := orchestration }
  | .compensating error =>
    (env.compensationRules.step engine.crew
      (if cancelled then .cancelCaller else .main choice)).map fun moved =>
        let settled := settleCompensation saga env error
          { engine with crew := moved.1 }
        (settled.1, moved.2.map .compensation ++ settled.2)
  | .completing verdict =>
    env.events.map fun port =>
      afterCall engine (enterMarking saga env verdict engine)
        (portReply port (.onCompleted verdict.success) cancelled)
  | .marking verdict =>
    env.persistence.map fun port =>
      afterCall engine ({ engine with
          phase := .finished (conclude saga env verdict
            engine.orchestration.ctx) }, [])
        (markReply port verdict.success cancelled)
  | .finished _ => none

def moveSteps (engine : Engine ι V E) (pick : OrchestratorPick ι) :
    Option (Engine ι V E × List (EngineEvent ι V E)) :=
  (engine.orchestration.step saga env pick).map fun moved =>
    ({ engine with orchestration := moved.1 }, moved.2.map .step)

def moveCompensations (engine : Engine ι V E) (pick : CrewPick) :
    Option (Engine ι V E × List (EngineEvent ι V E)) :=
  (env.compensationRules.step engine.crew pick).map fun moved =>
    ({ engine with crew := moved.1 }, moved.2.map .compensation)

def step (engine : Engine ι V E) :
    EnginePick ι → Option (Engine ι V E × List (EngineEvent ι V E))
  | .main choice => engine.resumeMain saga env policy false choice
  | .cancelCaller => engine.resumeMain saga env policy true 0
  | .task step => engine.moveSteps saga env (.task step)
  | .thread index => engine.moveSteps saga env (.thread index)
  | .child index => engine.moveCompensations env (.child index)
  | .orphan index => engine.moveCompensations env (.orphan index)

end Engine

/-- `SagaEngine.execute` under every interleaving. -/
def engineMachine [LinearOrder ι] (saga : SagaDefinition ι)
    (env : Environment ι V E) (policy : CompensationPolicy) :
    Machine (Engine ι V E) (EnginePick ι) (EngineEvent ι V E) where
  step := Engine.step saga env policy

/-- What one call of `SagaEngine.execute` is given besides the saga. -/
structure SagaRequest where
  correlationId : String
  headers : Dict String String
  policy : CompensationPolicy

def SagaRequest.context (request : SagaRequest) (saga : SagaDefinition ι) : SagaContext ι V E :=
  SagaContext.create request.correlationId saga.name request.headers

def executeSaga [LinearOrder ι] (saga : SagaDefinition ι)
    (env : Environment ι V E) (request : SagaRequest)
    (schedule : List (EnginePick ι)) :
    Execution (Engine ι V E) (EngineEvent ι V E) :=
  let started :=
    Engine.start saga env request.policy (request.context saga)
  (engineMachine saga env request.policy).runFrom ⟨started.1, started.2⟩ schedule

end PyFly.Saga
