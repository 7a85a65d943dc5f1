import PyFly.SagaComposition

/-!
# The compositor

`SagaCompositor.execute` runs the sagas of a layer together, takes their
results in the order of the layer and stops at the first failure.  The engine
is called at most once for each saga, so that its answers in one run are a
function of the saga.  A layer is awaited as a whole, hence no interleaving of
its sagas shows in the context.
-/

namespace PyFly.Saga

open Library Transactional List

variable {σ ι W E : Type}

/-- `SagaResult.result_of`; `None` is also a value a step may return. -/
def SagaResult.resultOf [DecidableEq ι]
    (result : SagaResult ι (Option W) E) (step : ι) : Option W :=
  (result.steps.get? step).bind fun outcome => outcome.result.join

inductive FlowValue (ι W E : Type)
  | plain (value : Option W)
  | whole (result : SagaResult ι (Option W) E)

inductive SagaInput (σ ι W E : Type)
  | initial (input : Option W)
  | resolved (dict : Dict σ (FlowValue ι W E))

namespace DataFlowManager

section

variable (asDict : W → Option (Dict σ (Option W)))

/-- The dictionary when `isinstance(value, dict)`. -/
def dict? : FlowValue ι W E → Option (Dict σ (Option W))
  | .plain (some value) => asDict value
  | _ => none

/-- `dict(initial_input)`, or a fresh dictionary. -/
def base (initialInput : Option W) : Dict σ (FlowValue ι W E) :=
  match initialInput.bind asDict with
  | none => Dict.empty
  | some dict => dict.mapValues fun _ value => .plain value

variable [DecidableEq σ] [DecidableEq ι]

def flowValue (flow : SagaDataFlow σ ι)
    (result : SagaResult ι (Option W) E) : FlowValue ι W E :=
  match flow.sourceStep with
  | some step => .plain (result.resultOf step)
  | none => .whole result

def place (flow : SagaDataFlow σ ι) (value : FlowValue ι W E)
    (resolved : Dict σ (FlowValue ι W E)) : Dict σ (FlowValue ι W E) :=
  match flow.targetKey with
  | some key => resolved.set key value
  | none =>
    match dict? asDict value with
    | some dict =>
      dict.items.foldl (fun resolved item =>
        resolved.set item.1 (.plain item.2)) resolved
    | none => resolved.set flow.sourceSaga value

def resolveFlow (results : Dict σ (SagaResult ι (Option W) E))
    (resolved : Dict σ (FlowValue ι W E)) (flow : SagaDataFlow σ ι) :
    Dict σ (FlowValue ι W E) :=
  match results.get? flow.sourceSaga with
  | none => resolved
  | some result => place asDict flow (flowValue flow result) resolved

def resolveInput (entry : CompositionEntry σ ι) (results : Dict σ (SagaResult ι (Option W) E))
    (initialInput : Option W) : SagaInput σ ι W E :=
  if entry.dataFlows.isEmpty then .initial initialInput
  else
    .resolved (entry.dataFlows.foldl (resolveFlow asDict results) (base asDict initialInput))

def overlay (entry : CompositionEntry σ ι)
    (result : σ → SagaResult ι (Option W) E) (initialInput : Option W) :
    SagaInput σ ι W E :=
  if entry.dataFlows.isEmpty then .initial initialInput
  else
    .resolved (entry.dataFlows.foldl (fun resolved flow =>
      place asDict flow (flowValue flow (result flow.sourceSaga)) resolved)
      (base asDict initialInput))

theorem resolveInput_eq_overlay {entry : CompositionEntry σ ι}
    {results : Dict σ (SagaResult ι (Option W) E)}
    {result : σ → SagaResult ι (Option W) E} (initialInput : Option W)
    (hresults : ∀ flow ∈ entry.dataFlows,
      results.get? flow.sourceSaga = some (result flow.sourceSaga)) :
    resolveInput asDict entry results initialInput =
      overlay asDict entry result initialInput := by
  unfold resolveInput overlay
  congr 2
  generalize base asDict initialInput = resolved
  generalize entry.dataFlows = flows at hresults
  induction flows generalizing resolved with
  | nil => rfl
  | cons flow rest ih =>
    have hflow : resolveFlow asDict results resolved flow =
        place asDict flow (flowValue flow (result flow.sourceSaga))
          resolved := by
      unfold resolveFlow
      rw [hresults flow mem_cons_self]
    rw [foldl_cons, foldl_cons, hflow]
    apply ih
    intro other hmem
    exact hresults other (mem_cons_of_mem flow hmem)

end

end DataFlowManager

/-! ## The compositor -/

structure CompositionContext (σ ι W E : Type) where
  correlationId : String
  compositionName : String
  sagaResults : Dict σ (SagaResult ι (Option W) E)
  sagaInputs : Dict σ (SagaInput σ ι W E)
  compensatedSagas : List σ
  error : Option E

def CompositionContext.create (correlationId compositionName : String) :
    CompositionContext σ ι W E where
  correlationId := correlationId
  compositionName := compositionName
  sagaResults := Dict.empty
  sagaInputs := Dict.empty
  compensatedSagas := []
  error := none

/-- What `SagaEngine.execute` answers: a result, or what it raises. -/
abbrev SagaReply (ι W E : Type) :=
  Except (Fault E) (SagaResult ι (Option W) E)

structure ResolveCall (σ ι W E : Type) where
  name : σ
  results : Dict σ (SagaResult ι (Option W) E)
  input : SagaInput σ ι W E

structure CompositorErrors (σ E : Type) where
  runtimeError : String → E
  keyError : σ → E

structure Progress (σ ι W E : Type) where
  context : CompositionContext σ ι W E
  completed : List σ
  calls : List (ResolveCall σ ι W E)

namespace SagaCompositor

section Definitions

variable [LinearOrder σ] [DecidableEq ι] [ToString σ]
variable (asDict : W → Option (Dict σ (Option W)))
variable (errors : CompositorErrors σ E)
variable (composition : SagaComposition σ ι)
variable (replies : σ → SagaReply ι W E) (initialInput : Option W)

/-- `_execute_saga` up to the call of the engine. -/
def resolveSaga (progress : Progress σ ι W E) (name : σ) : Progress σ ι W E :=
  match composition.entries.get? name with
  | none => progress
  | some entry =>
    let ctx := progress.context
    let input := DataFlowManager.resolveInput asDict entry ctx.sagaResults
      initialInput
    { progress with
      context := { ctx with sagaInputs := ctx.sagaInputs.set name input }
      calls := progress.calls ++ [⟨name, ctx.sagaResults, input⟩] }

/-- What `_execute_saga` ends with. -/
def sagaReply (name : σ) : SagaReply ι W E :=
  match composition.entries.get? name with
  | none => .error (.exception (errors.keyError name))
  | some _ => replies name

def complete (name : σ) (result : SagaResult ι (Option W) E)
    (progress : Progress σ ι W E) : Progress σ ι W E :=
  { progress with
    context :=
      { progress.context with
        sagaResults := progress.context.sagaResults.set name result }
    completed := progress.completed ++ [name] }

def failureMessage (name : σ) : String :=
  s!"Saga '{name}' failed in composition '{composition.name}'"

def processResults : List (σ × SagaReply ι W E) → Progress σ ι W E →
      Progress σ ι W E × Option (Fault E)
  | [], progress => (progress, none)
  | (_, .error fault) :: _, progress => (progress, some fault)
  | (name, .ok result) :: rest, progress =>
    if result.success then
      processResults rest (complete name result progress)
    else
      (complete name result progress, some (.exception
          (errors.runtimeError (failureMessage composition name))))

/-- The `try` block: the loop over the layers. -/
def runLayers : List (List σ) → Progress σ ι W E → Progress σ ι W E × Option (Fault E)
  | [], progress => (progress, none)
  | layer :: rest, progress =>
    let resolved :=
      layer.foldl (resolveSaga asDict composition initialInput) progress
    let results := layer.map (sagaReply errors composition replies)
    match processResults errors composition (layer.zip results)
        resolved with
    | (processed, none) => runLayers rest processed
    | (processed, some fault) => (processed, some fault)

def initial (correlationId : String) : Progress σ ι W E where
  context := .create correlationId composition.name
  completed := []
  calls := []

/-- `execute` up to the end of its `try` block.  A topology error is raised
before that block is entered. -/
def forward (correlationId : String) :
    Except TopologyError (Progress σ ι W E × Option (Fault E)) :=
  (computeLayers composition.deps).map fun layers =>
    runLayers asDict errors composition replies initialInput layers
      (initial composition correlationId)

end Definitions

/-- `except Exception`: the context which records the error, and the sagas
handed to the compensation manager.  A `CancelledError` passes through. -/
def failure? : Progress σ ι W E × Option (Fault E) →
      Option (CompositionContext σ ι W E × List σ)
  | (progress, some (.exception error)) =>
    some ({ progress.context with error := some error },
      progress.completed)
  | _ => none

section Layers

variable [LinearOrder σ] [DecidableEq ι] [ToString σ]
variable {asDict : W → Option (Dict σ (Option W))}
variable {errors : CompositorErrors σ E} {composition : SagaComposition σ ι}
variable {replies : σ → SagaReply ι W E} {initialInput : Option W}

def callFor (asDict : W → Option (Dict σ (Option W)))
    (composition : SagaComposition σ ι) (initialInput : Option W)
    (results : Dict σ (SagaResult ι (Option W) E)) (name : σ) :
    Option (ResolveCall σ ι W E) :=
  (composition.entries.get? name).map fun entry =>
    ⟨name, results, DataFlowManager.resolveInput asDict entry results initialInput⟩

omit [ToString σ] in
theorem resolve_layer (layer : List σ) (progress : Progress σ ι W E) :
    (layer.foldl (resolveSaga asDict composition initialInput)
        progress).context.sagaResults = progress.context.sagaResults ∧
      (layer.foldl (resolveSaga asDict composition initialInput)
        progress).completed = progress.completed ∧
      (layer.foldl (resolveSaga asDict composition initialInput)
        progress).calls = progress.calls ++ layer.filterMap
          (callFor asDict composition initialInput progress.context.sagaResults) := by
  induction layer generalizing progress with
  | nil => simp
  | cons name rest ih =>
    rw [foldl_cons]
    obtain ⟨hresults, hcompleted, hcalls⟩ :=
      ih (resolveSaga asDict composition initialInput progress name)
    rw [hresults, hcompleted, hcalls]
    unfold resolveSaga
    cases hentry : composition.entries.get? name with
    | none => simp [callFor, hentry]
    | some entry => simp [callFor, hentry]

def Succeeds (replies : σ → SagaReply ι W E) (name : σ) : Prop :=
  ∃ result, replies name = .ok result ∧ result.success = true

omit [ToString σ] [DecidableEq ι] in
theorem sagaReply_of_mem {name : σ} (hname : name ∈ composition.entries.keys) :
    sagaReply errors composition replies name = replies name := by
  obtain ⟨entry, hentry⟩ := Dict.mem_keys_iff.mp hname
  unfold sagaReply
  rw [hentry]

inductive Processed (composition : SagaComposition σ ι)
    (errors : CompositorErrors σ E) (replies : σ → SagaReply ι W E)
    (layer completed : List σ) : List σ → Option (Fault E) → Prop
  | through (hall : ∀ name ∈ layer, Succeeds replies name) :
      Processed composition errors replies layer completed (completed ++ layer) none
  | raised (before : List σ) (failed : σ) (after : List σ) (fault : Fault E)
      (hsplit : layer = before ++ failed :: after)
      (hbefore : ∀ name ∈ before, Succeeds replies name)
      (hfailed : replies failed = .error fault) :
      Processed composition errors replies layer completed (completed ++ before) (some fault)
  | unsuccessful (before : List σ) (failed : σ) (after : List σ)
      (result : SagaResult ι (Option W) E)
      (hsplit : layer = before ++ failed :: after)
      (hbefore : ∀ name ∈ before, Succeeds replies name)
      (hfailed : replies failed = .ok result)
      (hunsuccessful : result.success = false) :
      Processed composition errors replies layer completed (completed ++ (before ++ [failed]))
        (some (.exception (errors.runtimeError (failureMessage composition failed))))

omit [LinearOrder σ] [DecidableEq ι] in
theorem Processed.cons {name : σ} {layer completed after : List σ}
    {fault : Option (Fault E)} (hname : Succeeds replies name)
    (h : Processed composition errors replies layer (completed ++ [name]) after fault) :
    Processed composition errors replies (name :: layer) completed after
      fault := by
  have hcons : ∀ before : List σ, (∀ other ∈ before, Succeeds replies other) →
        ∀ other ∈ name :: before, Succeeds replies other := by
    intro before hbefore other hmem
    rcases mem_cons.mp hmem with hsame | hrest
    · rw [hsame]
      exact hname
    · exact hbefore other hrest
  cases h with
  | through hall =>
    rw [append_assoc]
    exact .through (hcons layer hall)
  | raised before failed rest fault hsplit hbefore hfailed =>
    rw [append_assoc]
    exact .raised (name :: before) failed rest fault
      (by rw [hsplit, cons_append]) (hcons before hbefore) hfailed
  | unsuccessful before failed rest result hsplit hbefore hfailed hunsuccessful =>
      rw [append_assoc]
      exact .unsuccessful (name :: before) failed rest result
        (by rw [hsplit, cons_append]) (hcons before hbefore) hfailed
        hunsuccessful

omit [DecidableEq ι] in
theorem processResults_spec {layer : List σ}
    (hlayer : ∀ name ∈ layer, name ∈ composition.entries.keys)
    (progress : Progress σ ι W E) :
    let processed := processResults errors composition
      (layer.zip (layer.map (sagaReply errors composition replies))) progress
    Processed composition errors replies layer progress.completed
        processed.1.completed processed.2 ∧
      processed.1.calls = progress.calls := by
  dsimp only
  induction layer generalizing progress with
  | nil =>
    refine ⟨?_, rfl⟩
    have hthrough := @Processed.through σ ι W E _ composition errors
      replies [] progress.completed (by simp)
    rwa [append_nil] at hthrough
  | cons name rest ih =>
    rw [map_cons, zip_cons_cons, sagaReply_of_mem (hlayer name mem_cons_self)]
    cases hanswer : replies name with
    | error fault =>
      refine ⟨?_, rfl⟩
      have hraised := @Processed.raised σ ι W E _ composition errors
        replies (name :: rest) progress.completed [] name rest fault rfl
        (by simp) hanswer
      rwa [append_nil] at hraised
    | ok result =>
      unfold processResults
      cases hsuccess : result.success with
      | true =>
        obtain ⟨hprocessed, hcalls⟩ :=
          ih (fun other hmem =>
            hlayer other (mem_cons_of_mem name hmem))
            (complete name result progress)
        rw [if_pos rfl]
        exact ⟨hprocessed.cons ⟨result, hanswer, hsuccess⟩, hcalls⟩
      | false =>
        rw [if_neg (by simp)]
        exact ⟨.unsuccessful [] name rest result rfl (by simp) hanswer
          hsuccess, rfl⟩

end Layers

end SagaCompositor

end PyFly.Saga
