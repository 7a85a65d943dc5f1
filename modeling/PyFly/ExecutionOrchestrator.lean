import Mathlib
import PyFly.StepExecution
import PyFly.Library.ScheduledMachine

/-!
# The execution orchestrator

`SagaExecutionOrchestrator.execute` opens one layer of step tasks after the
other and waits with `FIRST_EXCEPTION`.  A schedule chooses which task, which
abandoned thread or whether the orchestrator itself goes on next; the caller
may be cancelled at each of its awaits.
-/

namespace PyFly.Saga

open Library Transactional

variable {ι V E : Type}

/-- Where the coroutine `execute` stands; `draining` awaits the tasks it has
cancelled, holding the first error. -/
inductive MainPhase (E : Type)
  | waiting
  | draining (error : E)
  | returned
  | raised (error : E)
  | cancelled

def MainPhase.Disturbed : MainPhase E → Prop
  | .waiting | .returned => False
  | .draining _ | .raised _ | .cancelled => True

structure Orchestration (ι V E : Type) where
  ctx : SagaContext ι V E
  completed : List ι
  tasks : ι → StepTask E
  permits : Option ℕ
  position : ℕ
  main : MainPhase E
  threads : List (ι × ℕ)

/-- `main` takes the failed tasks of the unordered set `done` in an order of
its own choice. -/
inductive OrchestratorPick (ι : Type)
  | main (choice : ℕ)
  | task (step : ι)
  | thread (index : ℕ)
  | cancelCaller
  deriving DecidableEq

abbrev StepEvent (ι V E : Type) := ι × StepEffect ι V E

section Contexts

variable [DecidableEq ι]

def SagaContext.record (step : ι) (ctx : SagaContext ι V E) :
    StepEffect ι V E → SagaContext ι V E
  | .resultSet value => ctx.setResult step value
  | .statusSet status => ctx.setStepStatus step status
  | .attemptsSet attempts =>
    { ctx with stepAttempts := ctx.stepAttempts.set step attempts }
  | .latencySet latencyMs =>
    { ctx with stepLatenciesMs := ctx.stepLatenciesMs.set step latencyMs }
  | _ => ctx

end Contexts

namespace Orchestration

def layer (config : Orchestration ι V E) : List ι :=
  config.ctx.topologyLayers.getD config.position []

/-- `async with semaphore` would not block. -/
def available (config : Orchestration ι V E) : Bool :=
  match config.permits with
  | none => true
  | some permits => decide (0 < permits)

section Steps

variable [LinearOrder ι]

def absorb (step : ι) (config : Orchestration ι V E) : StepEffect ι V E → Orchestration ι V E
  | .entered => { config with permits := config.permits.map (· - 1) }
  | .left => { config with permits := config.permits.map (· + 1) }
  | .completed => { config with completed := config.completed ++ [step] }
  | .threadAbandoned attempt =>
    { config with threads := config.threads ++ [(step, attempt)] }
  | effect => { config with ctx := config.ctx.record step effect }

def createTasks {ι : Type} [DecidableEq ι] (saga : SagaDefinition ι)
    (layer : List ι) (tasks : ι → StepTask E) : ι → StepTask E :=
  fun step =>
    match saga.steps.get? step with
    | none => tasks step
    | some stepDef =>
      if step ∈ layer then ⟨.created, stepDef.backoffMs, false⟩
      else tasks step

def openLayer (saga : SagaDefinition ι) (position : ℕ)
    (config : Orchestration ι V E) : Orchestration ι V E :=
  match config.ctx.topologyLayers[position]? with
  | none => { config with position := position, main := .returned }
  | some layer =>
    { config with
      position := position
      main := .waiting
      tasks := createTasks saga layer config.tasks }

/-- `execute` up to its first await. -/
def start (saga : SagaDefinition ι) (env : Environment ι V E)
    (ctx : SagaContext ι V E) : Orchestration ι V E :=
  let blank : Orchestration ι V E :=
    { ctx := ctx
      completed := []
      tasks := fun _ => StepTask.absent
      permits :=
        if 0 < saga.layerConcurrency then some saga.layerConcurrency.toNat
        else none
      position := 0
      main := .waiting
      threads := [] }
  match computeLayers saga.deps with
  | .error error => { blank with main := .raised (env.topologyError error) }
  | .ok layers =>
    openLayer saga 0 { blank with ctx := { ctx with topologyLayers := layers } }

def requestCancel {ι : Type} [DecidableEq ι] (steps : List ι)
    (tasks : ι → StepTask E) : ι → StepTask E :=
  fun step =>
    if step ∈ steps then { tasks step with cancelRequested := true }
    else tasks step

def resumeMain (saga : SagaDefinition ι) (choice : ℕ)
    (config : Orchestration ι V E) : Option (Orchestration ι V E) :=
  let layer := config.layer
  match config.main with
  | .waiting =>
    let failures :=
      layer.filterMap fun step => (config.tasks step).phase.exception
    match failures.rotate choice with
    | error :: _ =>
      let pending := layer.filter fun step =>
        !(config.tasks step).phase.isEnded
      if pending = [] then some { config with main := .raised error }
      else
        some { config with
          main := .draining error
          tasks := requestCancel pending config.tasks }
    | [] =>
      if layer.all fun step => (config.tasks step).phase.isReturned then
        some (openLayer saga (config.position + 1) config)
      else none
  | .draining error =>
    if layer.all fun step => (config.tasks step).phase.isEnded then
      some { config with main := .raised error }
    else none
  | _ => none

def resumeTask (saga : SagaDefinition ι) (env : Environment ι V E)
    (step : ι) (config : Orchestration ι V E) :
    Option (Orchestration ι V E × List (StepEvent ι V E)) :=
  match saga.steps.get? step with
  | none => none
  | some stepDef =>
    match (config.tasks step).resume env stepDef config.available with
    | none => none
    | some (task, effects) =>
      some (effects.foldl (absorb step)
          { config with tasks := Function.update config.tasks step task },
        effects.map fun effect => (step, effect))

def threadEnded (env : Environment ι V E) (step : ι) (attempt : ℕ) : StepEffect ι V E :=
  match (env.attempt step attempt).reply with
  | .ok value => .threadReturned attempt value
  | .error error => .threadRaised attempt error

def finishThread (env : Environment ι V E) (index : ℕ) (config : Orchestration ι V E) :
    Option (Orchestration ι V E × List (StepEvent ι V E)) :=
  match config.threads[index]? with
  | none => none
  | some (step, attempt) =>
    some ({ config with threads := config.threads.eraseIdx index },
      [(step, threadEnded env step attempt)])

/-- `CancelledError` reaches `execute` at its await; its tasks are left. -/
def cancelCaller (config : Orchestration ι V E) : Option (Orchestration ι V E) :=
  match config.main with
  | .waiting | .draining _ => some { config with main := .cancelled }
  | _ => none

def step (saga : SagaDefinition ι) (env : Environment ι V E) (config : Orchestration ι V E) :
    OrchestratorPick ι → Option (Orchestration ι V E × List (StepEvent ι V E))
  | .main choice => (config.resumeMain saga choice).map (·, [])
  | .task step => config.resumeTask saga env step
  | .thread index => config.finishThread env index
  | .cancelCaller => config.cancelCaller.map (·, [])

end Steps

end Orchestration

def orchestrator [LinearOrder ι] (saga : SagaDefinition ι) (env : Environment ι V E) :
    Machine (Orchestration ι V E) (OrchestratorPick ι) (StepEvent ι V E) where
  step := Orchestration.step saga env

end PyFly.Saga
