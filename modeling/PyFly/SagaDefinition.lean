import PyFly.Library.InsertionDict
import PyFly.TransactionalPorts
import Mathlib.Logic.Relation
import Mathlib.Data.Rat.Defs
import Mathlib.Tactic.Common

/-!
# Saga definitions, contexts and results

Step ids are any linearly ordered type (strings with their lexicographic
order in the source), step values and exceptions are arbitrary types.  A
`SagaDefinition` can only be built with every step filed under its own id.
-/

namespace PyFly.Saga

open Library Transactional

variable {ι V E : Type}

structure Callable where
  qualname : String
  isCoroutine : Bool

structure StepDefinition (ι : Type) where
  id : ι
  stepMethod : Option Callable
  compensateMethod : Option Callable
  dependsOn : List ι
  retry : ℤ
  backoffMs : ℤ
  timeoutMs : ℤ
  jitter : Bool
  jitterFactor : ℚ
  cpuBound : Bool
  compensationRetry : Option ℤ
  compensationBackoffMs : Option ℤ

def StepDefinition.default (id : ι) : StepDefinition ι where
  id := id
  stepMethod := none
  compensateMethod := none
  dependsOn := []
  retry := 0
  backoffMs := 0
  timeoutMs := 0
  jitter := false
  jitterFactor := 0
  cpuBound := false
  compensationRetry := none
  compensationBackoffMs := none

def StepDefinition.reversible (id : ι) (dependsOn : List ι) : StepDefinition ι :=
  { StepDefinition.default id with
    stepMethod := some ⟨"action", true⟩
    compensateMethod := some ⟨"compensation", true⟩
    dependsOn := dependsOn }

def StepDefinition.maxRetries (stepDef : StepDefinition ι) : ℕ :=
  (max stepDef.retry 1).toNat

theorem StepDefinition.one_le_maxRetries (stepDef : StepDefinition ι) :
    1 ≤ stepDef.maxRetries := by
  unfold maxRetries
  omega

/-- The action runs in the thread pool: `cpu_bound`, and not a coroutine. -/
def StepDefinition.offloaded (stepDef : StepDefinition ι) : Bool :=
  match stepDef.stepMethod with
  | none => false
  | some method => stepDef.cpuBound && !method.isCoroutine

structure SagaDefinition (ι : Type) where
  name : String
  layerConcurrency : ℤ
  steps : Dict ι (StepDefinition ι)
  filedById : ∀ item ∈ steps.items, item.2.id = item.1

namespace SagaDefinition

def stepIds (saga : SagaDefinition ι) : List ι := saga.steps.keys

theorem stepIds_nodup (saga : SagaDefinition ι) : saga.stepIds.Nodup :=
  saga.steps.keys_nodup

def ofSteps [DecidableEq ι] (name : String) (steps : List (StepDefinition ι)) :
    SagaDefinition ι where
  name := name
  layerConcurrency := 0
  steps := steps.foldl (fun dict stepDef => dict.set stepDef.id stepDef) Dict.empty
  filedById := by
    have hfold : ∀ (rest : List (StepDefinition ι)) (dict : Dict ι (StepDefinition ι)),
        (∀ item ∈ dict.items, item.2.id = item.1) →
        ∀ item ∈ (rest.foldl (fun dict stepDef =>
          dict.set stepDef.id stepDef) dict).items, item.2.id = item.1 := by
      intro rest
      induction rest with
      | nil =>
        intro dict hfiled
        exact hfiled
      | cons stepDef rest ih =>
        intro dict hfiled
        apply ih
        intro item hmem
        rcases Dict.mem_items_set hmem with hnew | hold
        · rw [hnew]
        · exact hfiled item hold
    apply hfold
    intro item hmem
    cases hmem

def deps (saga : SagaDefinition ι) : Dict ι (List ι) :=
  saga.steps.mapValues fun _ stepDef => stepDef.dependsOn

@[simp] theorem keys_deps (saga : SagaDefinition ι) :
    saga.deps.keys = saga.stepIds := by
  simp [deps, stepIds]

variable [DecidableEq ι]

def compensable? (saga : SagaDefinition ι) (step : ι) : Option (StepDefinition ι) :=
  (saga.steps.get? step).filter fun stepDef =>
    stepDef.compensateMethod.isSome

def Compensable (saga : SagaDefinition ι) (step : ι) : Prop :=
  (saga.compensable? step).isSome

instance (saga : SagaDefinition ι) : DecidablePred saga.Compensable :=
  fun step => inferInstanceAs (Decidable ((saga.compensable? step).isSome = true))

variable {saga : SagaDefinition ι} {step : ι} {stepDef : StepDefinition ι}

theorem compensable_of_some (h : saga.compensable? step = some stepDef) :
    saga.Compensable step := by
  unfold Compensable
  rw [h]
  rfl

theorem not_compensable_of_none (h : saga.compensable? step = none) :
    ¬ saga.Compensable step := by
  unfold Compensable
  simp [h]

theorem id_of_get? (h : saga.steps.get? step = some stepDef) : stepDef.id = step :=
  saga.filedById (step, stepDef) (Dict.get?_eq_some_iff.mp h)

theorem id_of_compensable? (h : saga.compensable? step = some stepDef) : stepDef.id = step :=
  id_of_get? (Option.filter_eq_some_iff.mp h).1

def DependsOn (saga : SagaDefinition ι) (dependency step : ι) : Prop :=
  ∃ stepDef, saga.steps.get? step = some stepDef ∧ dependency ∈ stepDef.dependsOn

structure Valid (saga : SagaDefinition ι) : Prop where
  exist : ∀ dependency step, saga.DependsOn dependency step → dependency ∈ saga.stepIds
  acyclic : ∀ step, ¬ Relation.TransGen saga.DependsOn step step

def NoCpuBound (saga : SagaDefinition ι) : Prop :=
  ∀ step stepDef, saga.steps.get? step = some stepDef → stepDef.cpuBound = false

theorem NoCpuBound.offloaded (hcpu : saga.NoCpuBound)
    (hget : saga.steps.get? step = some stepDef) :
    stepDef.offloaded = false := by
  unfold StepDefinition.offloaded
  rw [hcpu step stepDef hget]
  cases stepDef.stepMethod with
  | none => rfl
  | some method => rfl

end SagaDefinition

/-! ## Run-time context -/

/-- The fields of `SagaContext` which the engine reads or writes. -/
structure SagaContext (ι V E : Type) where
  correlationId : String
  sagaName : String
  headers : Dict String String
  sagaVariables : Dict String V
  stepResults : Dict ι V
  stepStatuses : Dict ι StepStatus
  stepAttempts : Dict ι ℕ
  stepLatenciesMs : Dict ι ℚ
  stepStartedAt : Dict ι ℚ
  compensationResults : Dict ι V
  compensationErrors : Dict ι E
  topologyLayers : List (List ι)

namespace SagaContext

def create (correlationId sagaName : String)
    (headers : Dict String String) : SagaContext ι V E where
  correlationId := correlationId
  sagaName := sagaName
  headers := headers
  sagaVariables := Dict.empty
  stepResults := Dict.empty
  stepStatuses := Dict.empty
  stepAttempts := Dict.empty
  stepLatenciesMs := Dict.empty
  stepStartedAt := Dict.empty
  compensationResults := Dict.empty
  compensationErrors := Dict.empty
  topologyLayers := []

def doneSteps (ctx : SagaContext ι V E) : List ι :=
  (ctx.stepStatuses.items.filter fun item =>
    item.2 = StepStatus.done).map Prod.fst

theorem doneSteps_sublist (ctx : SagaContext ι V E) :
    ctx.doneSteps.Sublist ctx.stepStatuses.keys :=
  (List.filter_sublist).map Prod.fst

theorem doneSteps_nodup (ctx : SagaContext ι V E) : ctx.doneSteps.Nodup :=
  ctx.stepStatuses.keys_nodup.sublist ctx.doneSteps_sublist

variable [DecidableEq ι]

def setResult (ctx : SagaContext ι V E) (step : ι) (result : V) : SagaContext ι V E :=
  { ctx with stepResults := ctx.stepResults.set step result }

def setStepStatus (ctx : SagaContext ι V E) (step : ι)
    (status : StepStatus) : SagaContext ι V E :=
  { ctx with stepStatuses := ctx.stepStatuses.set step status }

def status? (ctx : SagaContext ι V E) (step : ι) : Option StepStatus :=
  ctx.stepStatuses.get? step

theorem mem_doneSteps {ctx : SagaContext ι V E} {step : ι} :
    step ∈ ctx.doneSteps ↔ ctx.status? step = some .done := by
  simp only [doneSteps, status?, Dict.get?_eq_some_iff, List.mem_map,
    List.mem_filter, decide_eq_true_eq]
  constructor
  · rintro ⟨item, ⟨hmem, hdone⟩, rfl⟩
    exact hdone ▸ hmem
  · intro hmem
    exact ⟨(step, .done), ⟨hmem, rfl⟩, rfl⟩

end SagaContext

structure StepOutcome (V E : Type) where
  status : StepStatus
  attempts : ℕ
  latencyMs : ℚ
  result : Option V
  error : Option E
  compensated : Bool
  startedAt : ℚ
  compensationResult : Option V
  compensationError : Option E

structure SagaResult (ι V E : Type) where
  sagaName : String
  correlationId : String
  startedAt : ℚ
  completedAt : ℚ
  success : Bool
  error : Option E
  headers : Dict String String
  steps : Dict ι (StepOutcome V E)

/-- Ids of the steps whose final status is `COMPENSATED`. -/
def SagaResult.compensatedSteps (result : SagaResult ι V E) : List ι :=
  (result.steps.items.filter fun item =>
    item.2.status = StepStatus.compensated).map Prod.fst

end PyFly.Saga
