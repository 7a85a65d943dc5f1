import PyFly.ForwardContext

/-!
# Arguments of step and compensation methods

`ArgumentResolver.resolve` computes the arguments of a method from its type
hints and a saga context.  The compensation manager of a composition no longer
has that context: it rebuilds one from the `SagaResult`, which carries no
variables.
-/

namespace PyFly.Saga

open Library Transactional List

variable {ι W E : Type}

/-! ## Hints and markers -/

/-- The injection markers; `other` is any other extra of an `Annotated`. -/
inductive Marker (ι : Type)
  | input (key : Option String)
  | fromStep (step : ι)
  | header (name : String)
  | headers
  | sagaVariable (name : String)
  | sagaVariables
  | setVariable (name : String)
  | fromCompensationResult (step : ι)
  | compensationError
  | other

inductive Hint (ι : Type)
  | sagaContext
  | annotated (contextBase : Bool) (extras : List (Marker ι))
  | plain

structure Parameter (ι : Type) where
  name : String
  hint : Option (Hint ι)

structure Signature (ι : Type) where
  qualname : String
  parameters : List (Parameter ι)
  returnHint : Option (Hint ι)

inductive Argument (ι W E : Type)
  | none
  | value (value : W)
  | text (text : String)
  | headerMap (headers : Dict String String)
  | variableMap (sagaVariables : Dict String (Option W))
  | exception (error : E)
  | context (ctx : SagaContext ι (Option W) E)

def Argument.ofValue : Option W → Argument ι W E
  | .none => .none
  | .some found => .value found

/-- What `resolve` raises. -/
inductive ResolveError (ι : Type)
  | noHint (parameter qualname : String)
  | noMarker (parameter : String) (hint : Hint ι)
  | noKey (key : String)

namespace ArgumentResolver

section Definitions

variable [DecidableEq ι] (extractKey : Option W → String → Option (Option W))
variable (ctx : SagaContext ι (Option W) E) (stepInput : Option W)

/-- `_resolve_marker`, `none` for `_UNRESOLVED`.  `extractKey` is the subscript
or attribute access on the step input, `none` when it raises. -/
def resolveMarker : Marker ι → Option (Except (ResolveError ι) (Argument ι W E))
  | .input none => some (.ok (.ofValue stepInput))
  | .input (some key) =>
    match extractKey stepInput key with
    | none => some (.error (.noKey key))
    | some value => some (.ok (.ofValue value))
  | .fromStep step => some (.ok (.ofValue (ctx.stepResults.get? step).join))
  | .header name =>
    match ctx.headers.get? name with
    | none => some (.ok .none)
    | some text => some (.ok (.text text))
  | .headers => some (.ok (.headerMap ctx.headers))
  | .sagaVariable name =>
    some (.ok (.ofValue (ctx.sagaVariables.get? name).join))
  | .sagaVariables => some (.ok (.variableMap ctx.sagaVariables))
  | .setVariable _ => some (.ok .none)
  | .fromCompensationResult step =>
    some (.ok (.ofValue (ctx.compensationResults.get? step).join))
  | .compensationError =>
    match ctx.compensationErrors.values with
    | [] => some (.ok .none)
    | error :: _ => some (.ok (.exception error))
  | .other => none

def resolveParameter (name : String) (hint : Hint ι) :
    Except (ResolveError ι) (Argument ι W E) :=
  match hint with
  | .sagaContext => .ok (.context ctx)
  | .annotated true _ => .ok (.context ctx)
  | .annotated false extras =>
    match extras.findSome? (resolveMarker extractKey ctx stepInput) with
    | some resolved => resolved
    | none => .error (.noMarker name hint)
  | .plain => .error (.noMarker name hint)

/-- The loop body of `resolve`. -/
def resolveEntry (qualname : String) (parameter : Parameter ι) :
    Except (ResolveError ι) (Argument ι W E) :=
  match parameter.hint with
  | none => .error (.noHint parameter.name qualname)
  | some hint =>
    resolveParameter extractKey ctx stepInput parameter.name hint

/-- The loop of `resolve`: the first failure ends it. -/
def resolveAll (qualname : String) : List (Parameter ι) →
      Except (ResolveError ι) (List (String × Argument ι W E))
  | [] => .ok []
  | parameter :: rest =>
    match resolveEntry extractKey ctx stepInput qualname parameter with
    | .error error => .error error
    | .ok argument =>
      match resolveAll qualname rest with
      | .error error => .error error
      | .ok arguments => .ok ((parameter.name, argument) :: arguments)

def injected (signature : Signature ι) : List (Parameter ι) :=
  signature.parameters.filter fun parameter => parameter.name ≠ "self"

def resolve (signature : Signature ι) :
    Except (ResolveError ι) (List (String × Argument ι W E)) :=
  resolveAll extractKey ctx stepInput signature.qualname (injected signature)

end Definitions

end ArgumentResolver

/-! ## Variables -/

def Hint.setVariables : Hint ι → List String
  | .annotated _ extras => extras.filterMap fun marker =>
    match marker with
    | .setVariable name => some name
    | _ => none
  | _ => []

def Signature.setVariables (signature : Signature ι) : List String :=
  (signature.parameters.filterMap Parameter.hint ++
    signature.returnHint.toList).flatMap Hint.setVariables

def applySetVariables (signature : Signature ι) (result : Option W)
    (sagaVariables : Dict String (Option W)) : Dict String (Option W) :=
  signature.setVariables.foldl (fun sagaVariables name =>
    sagaVariables.set name result) sagaVariables

def variablesAfter (signatures : ι → Signature ι)
    (trace : List (StepEvent ι (Option W) E)) : Dict String (Option W) :=
  trace.foldl (fun sagaVariables event =>
    match event with
    | (step, .actionReturned _ value) =>
      applySetVariables (signatures step) value sagaVariables
    | _ => sagaVariables) Dict.empty

def finalContext (signatures : ι → Signature ι) (execution : Execution (Engine ι (Option W) E)
      (EngineEvent ι (Option W) E)) : SagaContext ι (Option W) E :=
  { execution.state.orchestration.ctx with
    sagaVariables := variablesAfter signatures (stepEvents execution.trace) }

def buildSagaContext (freshId sagaName : String) :
    Option (SagaResult ι (Option W) E) → SagaContext ι (Option W) E
  | none => SagaContext.create freshId sagaName Dict.empty
  | some result =>
    { SagaContext.create result.correlationId sagaName result.headers with
      stepStatuses := result.steps.mapValues fun _ outcome =>
        outcome.status
      stepResults := result.steps.filterMapValues fun _ outcome =>
        outcome.result.join.map some }

namespace ArgumentResolver

def recognised : Marker ι → Bool
  | .other => false
  | _ => true

def marker? (parameter : Parameter ι) : Option (Marker ι) :=
  match parameter.hint with
  | some (.annotated false extras) => extras.find? recognised
  | _ => none

def takesContext (parameter : Parameter ι) : Bool :=
  match parameter.hint with
  | some .sagaContext => true
  | some (.annotated true _) => true
  | _ => false

def Unresolvable (extractKey : Option W → String → Option (Option W))
    (stepInput : Option W) (parameter : Parameter ι) : Prop :=
  takesContext parameter = false ∧ (marker? parameter = none ∨
      ∃ key, marker? parameter = some (.input (some key)) ∧ extractKey stepInput key = none)

def ReadsVariable (sagaVariables : Dict String (Option W)) : Marker ι → Prop
  | .sagaVariable name => (sagaVariables.get? name).join ≠ none
  | .sagaVariables => sagaVariables ≠ Dict.empty
  | _ => False

def isContext : Argument ι W E → Bool
  | .context _ => true
  | _ => false

def marked (resolved : Except (ResolveError ι) (List (String × Argument ι W E))) :
    Except (ResolveError ι) (List (String × Argument ι W E)) :=
  resolved.map (List.filter fun argument => !isContext argument.2)

section Comparison

variable [DecidableEq ι] {extractKey : Option W → String → Option (Option W)}
variable {ctx other : SagaContext ι (Option W) E} {stepInput : Option W}

variable {marker : Marker ι}

theorem resolveMarker_eq_none :
    resolveMarker extractKey ctx stepInput marker = none ↔ recognised marker = false := by
  cases marker with
  | input key =>
    cases key with
    | none => simp [resolveMarker, recognised]
    | some key =>
      cases hkey : extractKey stepInput key with
      | none => simp [resolveMarker, recognised, hkey]
      | some value => simp [resolveMarker, recognised, hkey]
  | header name =>
    cases hheader : ctx.headers.get? name with
    | none => simp [resolveMarker, recognised, hheader]
    | some text => simp [resolveMarker, recognised, hheader]
  | compensationError =>
    cases herrors : ctx.compensationErrors.values with
    | nil => simp [resolveMarker, recognised, herrors]
    | cons error rest => simp [resolveMarker, recognised, herrors]
  | _ => simp [resolveMarker, recognised]

theorem findSome?_resolveMarker (extras : List (Marker ι)) :
    extras.findSome? (resolveMarker extractKey ctx stepInput) =
      (extras.find? recognised).bind (resolveMarker extractKey ctx stepInput) := by
  induction extras with
  | nil => rfl
  | cons marker rest ih =>
    rw [List.findSome?_cons, List.find?_cons]
    cases hrecognised : recognised marker with
    | false =>
      rw [resolveMarker_eq_none.mpr hrecognised]
      exact ih
    | true =>
      cases hresolved : resolveMarker extractKey ctx stepInput marker with
      | none =>
        rw [resolveMarker_eq_none.mp hresolved] at hrecognised
        cases hrecognised
      | some resolved =>
        rw [Option.bind_some, hresolved]

variable {parameter : Parameter ι}

omit [DecidableEq ι] in
theorem takesContext_of_marker (h : marker? parameter = some marker) :
    takesContext parameter = false := by
  unfold marker? at h
  unfold takesContext
  split at h
  · next extras hhint => rw [hhint]
  · cases h

theorem resolveEntry_of_context {qualname : String} (h : takesContext parameter = true) :
    resolveEntry extractKey ctx stepInput qualname parameter = .ok (.context ctx) := by
  unfold takesContext at h
  unfold resolveEntry
  split at h
  · next hhint =>
      rw [hhint]
      rfl
  · next extras hhint =>
      rw [hhint]
      rfl
  · cases h

theorem resolveEntry_of_marker {qualname : String} {parameter : Parameter ι} {marker : Marker ι}
    (h : marker? parameter = some marker) :
    some (resolveEntry extractKey ctx stepInput qualname parameter) =
      resolveMarker extractKey ctx stepInput marker := by
  unfold marker? at h
  unfold resolveEntry
  split at h
  · next extras hhint =>
      rw [hhint]
      have hfound := @findSome?_resolveMarker _ W E _ extractKey ctx stepInput extras
      rw [h, Option.bind_some] at hfound
      cases hresolved : resolveMarker extractKey ctx stepInput marker with
      | none =>
        have hrecognised := List.find?_some h
        rw [resolveMarker_eq_none.mp hresolved] at hrecognised
        cases hrecognised
      | some resolved =>
        rw [hresolved] at hfound
        show some (resolveParameter extractKey ctx stepInput parameter.name
          (.annotated false extras)) = _
        unfold resolveParameter
        dsimp only
        rw [hfound]
  · cases h

theorem resolveEntry_of_unmarked (extractKey : Option W → String →
      Option (Option W)) (stepInput : Option W) (qualname : String)
    (hcontext : takesContext parameter = false)
    (hmarker : marker? parameter = none) :
    ∃ error, ∀ ctx : SagaContext ι (Option W) E,
      resolveEntry extractKey ctx stepInput qualname parameter = .error error := by
  unfold takesContext at hcontext
  unfold marker? at hmarker
  cases hhint : parameter.hint with
  | none =>
    refine ⟨.noHint parameter.name qualname, fun ctx => ?_⟩
    unfold resolveEntry
    rw [hhint]
  | some hint =>
    rw [hhint] at hcontext hmarker
    refine ⟨.noMarker parameter.name hint, fun ctx => ?_⟩
    unfold resolveEntry
    rw [hhint]
    cases hint with
    | sagaContext => cases hcontext
    | annotated contextBase extras =>
      cases contextBase with
      | true => cases hcontext
      | false =>
        have hfound := @findSome?_resolveMarker _ W E _ extractKey ctx stepInput extras
        have hnone : extras.find? recognised = none := hmarker
        rw [hnone] at hfound
        dsimp only
        unfold resolveParameter
        dsimp only
        rw [hfound]
        rfl
    | plain => rfl

structure Forgetful (ctx other : SagaContext ι (Option W) E) : Prop where
  headers : ctx.headers = other.headers
  results : ∀ step, (ctx.stepResults.get? step).join = (other.stepResults.get? step).join
  compensationResults : ctx.compensationResults = other.compensationResults
  compensationErrors : ctx.compensationErrors = other.compensationErrors
  sagaVariables : ctx.sagaVariables = Dict.empty

omit [DecidableEq ι] in
theorem ofValue_eq_none {value : Option W} :
    (Argument.ofValue none : Argument ι W E) = Argument.ofValue value ↔ value = none := by
  cases value with
  | none => simp
  | some found => simp [Argument.ofValue]

theorem resolveMarker_eq_iff (h : Forgetful ctx other) (marker : Marker ι) :
    resolveMarker extractKey ctx stepInput marker =
        resolveMarker extractKey other stepInput marker ↔
      ¬ ReadsVariable other.sagaVariables marker := by
  cases marker with
  | sagaVariable name =>
    unfold resolveMarker ReadsVariable
    rw [h.sagaVariables, not_not, Option.some_inj, Except.ok.injEq]
    exact ofValue_eq_none
  | sagaVariables =>
    unfold resolveMarker ReadsVariable
    rw [h.sagaVariables, not_not, Option.some_inj, Except.ok.injEq, Argument.variableMap.injEq]
    exact eq_comm
  | input key =>
    cases key with
    | none => simp [resolveMarker, ReadsVariable]
    | some key => simp [resolveMarker, ReadsVariable]
  | fromStep step => simp [resolveMarker, ReadsVariable, h.results]
  | header name => simp [resolveMarker, ReadsVariable, h.headers]
  | headers => simp [resolveMarker, ReadsVariable, h.headers]
  | fromCompensationResult step =>
    simp [resolveMarker, ReadsVariable, h.compensationResults]
  | compensationError =>
    simp [resolveMarker, ReadsVariable, h.compensationErrors]
  | setVariable name => simp [resolveMarker, ReadsVariable]
  | other => simp [resolveMarker, ReadsVariable]

theorem isContext_of_marker {argument : Argument ι W E}
    (h : resolveMarker extractKey ctx stepInput marker =
      some (.ok argument)) : isContext argument = false := by
  have hvalue : ∀ value : Option W,
      isContext (Argument.ofValue value : Argument ι W E) = false := by
    intro value
    cases value with
    | none => rfl
    | some found => rfl
  unfold resolveMarker at h
  split at h
  · cases h
    exact hvalue stepInput
  · split at h
    · cases h
    · cases h
      exact hvalue _
  · cases h
    exact hvalue _
  · split at h
    · cases h
      rfl
    · cases h
      rfl
  · cases h
    rfl
  · cases h
    exact hvalue _
  · cases h
    rfl
  · cases h
    rfl
  · cases h
    exact hvalue _
  · split at h
    · cases h
      rfl
    · cases h
      rfl
  · cases h

theorem resolveMarker_eq_error {error : ResolveError ι} :
    resolveMarker extractKey ctx stepInput marker = some (.error error) ↔
      ∃ key, marker = .input (some key) ∧
        extractKey stepInput key = none ∧ error = .noKey key := by
  cases marker with
  | input key =>
    cases key with
    | none => simp [resolveMarker]
    | some key =>
      cases hkey : extractKey stepInput key with
      | none => simp [resolveMarker, hkey, eq_comm]
      | some value => simp [resolveMarker, hkey]
  | header name =>
    cases hheader : ctx.headers.get? name with
    | none => simp [resolveMarker, hheader]
    | some text => simp [resolveMarker, hheader]
  | compensationError =>
    cases herrors : ctx.compensationErrors.values with
    | nil => simp [resolveMarker, herrors]
    | cons failure rest => simp [resolveMarker, herrors]
  | _ => simp [resolveMarker]

theorem resolveEntry_of_unresolvable {parameter : Parameter ι} (qualname : String)
    (h : Unresolvable extractKey stepInput parameter) :
    ∃ error, ∀ ctx : SagaContext ι (Option W) E,
      resolveEntry extractKey ctx stepInput qualname parameter = .error error := by
  obtain ⟨hcontext, hnone | ⟨key, hmarker, hkey⟩⟩ := h
  · exact resolveEntry_of_unmarked extractKey stepInput qualname hcontext hnone
  · refine ⟨.noKey key, fun ctx => ?_⟩
    have hraised : resolveMarker extractKey ctx stepInput
        (.input (some key)) = some (.error (.noKey key)) :=
      resolveMarker_eq_error.mpr ⟨key, rfl, hkey, rfl⟩
    exact Option.some.inj ((resolveEntry_of_marker hmarker).trans hraised)

theorem resolveEntry_of_resolvable {parameter : Parameter ι} (qualname : String)
    (h : ¬ Unresolvable extractKey stepInput parameter) :
    takesContext parameter = true ∨ ∃ marker, marker? parameter = some marker ∧
        ∀ ctx : SagaContext ι (Option W) E, ∃ argument,
          resolveEntry extractKey ctx stepInput qualname parameter = .ok argument ∧
          resolveMarker extractKey ctx stepInput marker = some (.ok argument) := by
  cases hcontext : takesContext parameter with
  | true => exact Or.inl rfl
  | false =>
    right
    cases hmarker : marker? parameter with
    | none => exact absurd ⟨hcontext, Or.inl hmarker⟩ h
    | some marker =>
      refine ⟨marker, rfl, fun ctx => ?_⟩
      have hentry := @resolveEntry_of_marker _ W E _ extractKey ctx
        stepInput qualname parameter marker hmarker
      cases hresolved : resolveEntry extractKey ctx stepInput qualname parameter with
      | error error =>
        rw [hresolved] at hentry
        obtain ⟨key, hinput, hkey, _⟩ :=
          resolveMarker_eq_error.mp hentry.symm
        rw [hinput] at hmarker
        exact absurd ⟨hcontext, Or.inr ⟨key, hmarker, hkey⟩⟩ h
      | ok argument =>
        rw [hresolved] at hentry
        exact ⟨argument, rfl, hentry.symm⟩

theorem resolveAll_of_unresolvable {qualname : String} {parameters : List (Parameter ι)}
    (h : ∃ parameter ∈ parameters, Unresolvable extractKey stepInput parameter) :
    ∃ error, ∀ ctx : SagaContext ι (Option W) E,
      resolveAll extractKey ctx stepInput qualname parameters = .error error := by
  induction parameters with
  | nil =>
    obtain ⟨_, hmem, _⟩ := h
    cases hmem
  | cons parameter rest ih =>
    by_cases hhead : Unresolvable extractKey stepInput parameter
    · obtain ⟨error, herror⟩ :=
        @resolveEntry_of_unresolvable _ W E _ extractKey stepInput parameter qualname hhead
      refine ⟨error, fun ctx => ?_⟩
      unfold resolveAll
      rw [herror ctx]
    · obtain ⟨found, hmem, hfound⟩ := h
      rcases mem_cons.mp hmem with hsame | hrest
      · rw [hsame] at hfound
        exact absurd hfound hhead
      · obtain ⟨error, herror⟩ := ih ⟨found, hrest, hfound⟩
        refine ⟨error, fun ctx => ?_⟩
        have hentry : ∃ argument, resolveEntry extractKey ctx stepInput
            qualname parameter = .ok argument := by
          rcases @resolveEntry_of_resolvable _ W E _ extractKey stepInput
            parameter qualname hhead with hcontext | ⟨_, _, hmarker⟩
          · exact ⟨_, resolveEntry_of_context hcontext⟩
          · obtain ⟨argument, hargument, _⟩ := hmarker ctx
            exact ⟨argument, hargument⟩
        obtain ⟨argument, hargument⟩ := hentry
        unfold resolveAll
        rw [hargument, herror ctx]

omit [DecidableEq ι] in
theorem marked_cons_context {name : String} (arguments : List (String × Argument ι W E)) :
    marked (.ok ((name, .context ctx) :: arguments)) = marked (.ok arguments) := rfl

omit [DecidableEq ι] in
theorem marked_cons_marker {name : String} {argument : Argument ι W E}
    (hargument : isContext argument = false)
    (arguments : List (String × Argument ι W E)) :
    marked (.ok ((name, argument) :: arguments)) =
      .ok ((name, argument) :: arguments.filter fun argument =>
        !isContext argument.2) := by
  show Except.ok (List.filter _ _) = _
  rw [filter_cons_of_pos (by simp [hargument])]

theorem resolveAll_of_resolvable (qualname : String) {parameters : List (Parameter ι)}
    (h : ∀ parameter ∈ parameters, ¬ Unresolvable extractKey stepInput parameter)
    (hforgetful : Forgetful ctx other) :
    ∃ arguments otherArguments,
      resolveAll extractKey ctx stepInput qualname parameters = .ok arguments ∧
      resolveAll extractKey other stepInput qualname parameters = .ok otherArguments ∧
      (marked (.ok arguments : Except (ResolveError ι) _) = marked (.ok otherArguments) ↔
        ∀ parameter ∈ parameters, ∀ marker, marker? parameter = some marker →
            ¬ ReadsVariable other.sagaVariables marker) := by
  induction parameters with
  | nil => exact ⟨[], [], rfl, rfl, by simp⟩
  | cons parameter rest ih =>
    obtain ⟨arguments, otherArguments, hresolved, hother, hiff⟩ :=
      ih fun found hmem => h found (mem_cons_of_mem parameter hmem)
    rcases @resolveEntry_of_resolvable _ W E _ extractKey stepInput
      parameter qualname (h parameter mem_cons_self) with
        hcontext | ⟨marker, hmarker, hentries⟩
    · refine ⟨(parameter.name, .context ctx) :: arguments,
        (parameter.name, .context other) :: otherArguments, ?_, ?_, ?_⟩
      · unfold resolveAll
        rw [resolveEntry_of_context hcontext, hresolved]
      · unfold resolveAll
        rw [resolveEntry_of_context hcontext, hother]
      · rw [marked_cons_context, marked_cons_context, hiff]
        constructor
        · intro hrest found hmem marker hfound
          rcases mem_cons.mp hmem with hsame | hlater
          · rw [hsame] at hfound
            rw [takesContext_of_marker hfound] at hcontext
            cases hcontext
          · exact hrest found hlater marker hfound
        · intro hall found hmem
          exact hall found (mem_cons_of_mem parameter hmem)
    · obtain ⟨argument, hargument, hmarked⟩ := hentries ctx
      obtain ⟨otherArgument, hotherArgument, hotherMarked⟩ :=
        hentries other
      have hsame : argument = otherArgument ↔ ¬ ReadsVariable other.sagaVariables marker := by
        rw [← @resolveMarker_eq_iff _ W E _ extractKey ctx other stepInput
          hforgetful marker, hmarked, hotherMarked]
        simp
      refine ⟨(parameter.name, argument) :: arguments,
        (parameter.name, otherArgument) :: otherArguments, ?_, ?_, ?_⟩
      · unfold resolveAll
        rw [hargument, hresolved]
      · unfold resolveAll
        rw [hotherArgument, hother]
      · rw [marked_cons_marker (isContext_of_marker hmarked),
          marked_cons_marker (isContext_of_marker hotherMarked)]
        rw [show (marked (.ok arguments : Except (ResolveError ι) _) =
            marked (.ok otherArguments)) =
          ((Except.ok (List.filter (fun argument =>
              !isContext argument.2) arguments) : Except (ResolveError ι) _) =
            .ok (List.filter (fun argument => !isContext argument.2)
              otherArguments)) from rfl] at hiff
        simp only [Except.ok.injEq, List.cons.injEq, Prod.mk.injEq, true_and] at hiff ⊢
        rw [hsame, hiff]
        constructor
        · intro hboth found hmem supplying hfound
          rcases mem_cons.mp hmem with heq | hlater
          · rw [heq, hmarker] at hfound
            rw [← Option.some.inj hfound]
            exact hboth.1
          · exact hboth.2 found hlater supplying hfound
        · intro hall
          exact ⟨hall parameter mem_cons_self marker hmarker, fun found hmem =>
              hall found (mem_cons_of_mem parameter hmem)⟩

end Comparison

end ArgumentResolver

section Rebuilt

open ArgumentResolver

variable [LinearOrder ι]

theorem forgetful_buildSagaContext {saga : SagaDefinition ι}
    {env : Environment ι (Option W) E} {request : SagaRequest}
    {schedule : List (EnginePick ι)} {result : SagaResult ι (Option W) E}
    (hend : (executeSaga saga env request schedule).state.phase = .finished (.returned result))
    (freshId : String) (signatures : ι → Signature ι) :
    Forgetful (buildSagaContext freshId saga.name (some result))
      (finalContext signatures (executeSaga saga env request schedule)) := by
  have hstage := executeSaga_stage saga env request
    (show False → .cancelCaller ∉ schedule from False.elim)
  obtain ⟨steps, error, hrun, hresult⟩ := returned_of_stage hstage hend
  have hforward := @orchestrate_forward _ (Option W) E _ saga env request steps
  rw [hrun] at hforward
  generalize (executeSaga saga env request schedule) = execution at *
  dsimp only at hforward
  constructor
  · show result.headers = execution.state.orchestration.ctx.headers
    rw [hresult]
    rfl
  · intro step
    show ((result.steps.filterMapValues _).get? step).join =
      (execution.state.orchestration.ctx.stepResults.get? step).join
    have hsteps : result.steps = saga.steps.mapValues fun step _ =>
        stepOutcome env execution.state.orchestration.ctx result.success error step := by
      conv_lhs => rw [hresult]
      rfl
    rw [Dict.get?_filterMapValues, hsteps, Dict.get?_mapValues]
    cases hget : saga.steps.get? step with
    | none =>
      rw [hforward.results step (Dict.get?_eq_none_iff.mp hget)]
      rfl
    | some stepDef =>
      show ((execution.state.orchestration.ctx.stepResults.get? step).join.map some).join = _
      cases (execution.state.orchestration.ctx.stepResults.get? step).join with
      | none => rfl
      | some found => rfl
  · exact hforward.compensationResults.symm
  · exact hforward.compensationErrors.symm
  · rfl

/-- The arguments which the markers of a method read from the rebuilt context
are those of the saga's own final context exactly when resolving fails anyway
or no marker reads a variable which the saga has set. -/
theorem rebuilt_arguments_iff {saga : SagaDefinition ι}
    {env : Environment ι (Option W) E} {request : SagaRequest}
    {schedule : List (EnginePick ι)} {result : SagaResult ι (Option W) E}
    (hend : (executeSaga saga env request schedule).state.phase = .finished (.returned result))
    (freshId : String) (signatures : ι → Signature ι)
    (extractKey : Option W → String → Option (Option W))
    (method : Signature ι) :
    marked (resolve extractKey (buildSagaContext freshId saga.name (some result)) none method) =
      marked (resolve extractKey (finalContext signatures
        (executeSaga saga env request schedule)) none method) ↔
      (∃ parameter ∈ injected method, Unresolvable extractKey none parameter) ∨
        ∀ parameter ∈ injected method, ∀ marker, marker? parameter = some marker →
            ¬ ReadsVariable (variablesAfter signatures (stepEvents
              (executeSaga saga env request schedule).trace)) marker := by
  have hforgetful := forgetful_buildSagaContext hend freshId signatures
  by_cases hbad : ∃ parameter ∈ injected method, Unresolvable extractKey none parameter
  · obtain ⟨error, herror⟩ :=
      @resolveAll_of_unresolvable _ W E _ extractKey none method.qualname (injected method) hbad
    unfold resolve
    rw [herror, herror]
    simp [hbad]
  · have hall : ∀ parameter ∈ injected method, ¬ Unresolvable extractKey none parameter := by
      intro parameter hmem hparameter
      exact hbad ⟨parameter, hmem, hparameter⟩
    obtain ⟨arguments, otherArguments, hresolved, hother, hiff⟩ :=
      resolveAll_of_resolvable method.qualname hall hforgetful
    unfold resolve
    rw [hresolved, hother, hiff]
    constructor
    · exact Or.inr
    · exact fun h => h.resolve_left hbad

end Rebuilt

def chainSignatures (step : ℕ) : Signature ℕ where
  qualname := "action"
  parameters := []
  returnHint :=
    if step = 0 then some (.annotated false [.setVariable "receipt"])
    else none

def cancelSignature (marker : Marker ℕ) : Signature ℕ where
  qualname := "cancel"
  parameters := [⟨"receipt", some (.annotated false [marker])⟩]
  returnHint := none

def chainSchedule : List (EnginePick ℕ) :=
  [.task 0, .task 0, .main 0, .task 1, .task 1, .main 0]

/-- A result read with `FromStep` is the same in both contexts. -/
theorem rebuilt_arguments_fromStep :
    ∃ result, (executeSaga chainSaga (Environment.obliging (some ()) ())
        ⟨"1", Dict.empty, .strictSequential⟩ chainSchedule).state.phase =
          .finished (.returned result) ∧
      ArgumentResolver.marked (ArgumentResolver.resolve (fun _ _ => none)
          (buildSagaContext "2" chainSaga.name (some result)) none
          (cancelSignature (.fromStep 0))) =
        ArgumentResolver.marked (ArgumentResolver.resolve (fun _ _ => none)
          (finalContext chainSignatures
            (executeSaga chainSaga (Environment.obliging (some ()) ())
              ⟨"1", Dict.empty, .strictSequential⟩ chainSchedule)) none
          (cancelSignature (.fromStep 0))) := by
  refine ⟨_, rfl, ?_⟩
  refine (rebuilt_arguments_iff rfl "2" chainSignatures _ _).mpr (Or.inr ?_)
  intro parameter hmem marker hmarker
  cases mem_singleton.mp hmem
  cases hmarker
  exact id

/-- A variable which an action has set is `None` in the rebuilt context. -/
theorem rebuilt_arguments_ne_variable :
    ∃ result, (executeSaga chainSaga (Environment.obliging (some ()) ())
        ⟨"1", Dict.empty, .strictSequential⟩ chainSchedule).state.phase =
          .finished (.returned result) ∧
      ArgumentResolver.marked (ArgumentResolver.resolve (fun _ _ => none)
          (buildSagaContext "2" chainSaga.name (some result)) none
          (cancelSignature (.sagaVariable "receipt"))) ≠
        ArgumentResolver.marked (ArgumentResolver.resolve (fun _ _ => none)
          (finalContext chainSignatures
            (executeSaga chainSaga (Environment.obliging (some ()) ())
              ⟨"1", Dict.empty, .strictSequential⟩ chainSchedule)) none
          (cancelSignature (.sagaVariable "receipt"))) := by
  refine ⟨_, rfl, ?_⟩
  intro hsame
  have hvalues : (Except.ok [("receipt", Argument.none)] :
      Except (ResolveError ℕ) (List (String × Argument ℕ Unit Unit))) =
        .ok [("receipt", .value ())] := hsame
  cases hvalues

end PyFly.Saga
