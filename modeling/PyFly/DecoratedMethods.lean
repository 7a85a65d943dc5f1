import PyFly.Library.CoroutineFunctions
import PyFly.ArgumentResolver
import PyFly.TccRegistry

/-!
# Decorated methods

`@saga_step` and the phase decorators of a TCC put a plain function around a
method.  The registries find that function, and the invokers ask it whether
it is a coroutine function.
-/

namespace PyFly.Transactional

open Library

variable {ι U X V E : Type}

/-! ## Sagas -/

/-- The dictionary which `@saga_step` puts on its wrapper. -/
structure StepMeta (ι : Type) where
  id : ι
  compensate : Option String
  dependsOn : List ι
  retry : ℤ
  backoffMs : ℤ
  timeoutMs : ℤ
  jitter : Bool
  jitterFactor : ℚ
  cpuBound : Bool
  compensationRetry : Option ℤ
  compensationBackoffMs : Option ℤ

structure SagaMethod (ι U X V E : Type) where
  signature : Saga.Signature ι
  isAsync : Bool
  body : List (String × Saga.Argument ι X E) → U → Except E (PyObject U V E) × U
  stepMeta : Option (StepMeta ι)

namespace SagaMethod

def undecorated (method : SagaMethod ι U X V E) :
    PyFunction U (List (String × Saga.Argument ι X E)) V E :=
  if method.isAsync then .async method.body else .sync method.body

/-- The attribute of the class.  `functools.wraps` keeps the signature. -/
def code (method : SagaMethod ι U X V E) :
    PyFunction U (List (String × Saga.Argument ι X E)) V E :=
  if method.stepMeta.isSome then .wrapper method.undecorated
  else method.undecorated

def callable (method : SagaMethod ι U X V E) : Saga.Callable where
  qualname := method.signature.qualname
  isCoroutine := method.code.isCoroutineFunction

theorem complete_code (method : SagaMethod ι U X V E) :
    method.code.complete = method.undecorated.complete := by
  unfold code
  split <;> rfl

theorem hidesCoroutine_code {method : SagaMethod ι U X V E} : method.code.HidesCoroutine ↔
      method.stepMeta.isSome ∧ method.isAsync = true := by
  cases hmeta : method.stepMeta.isSome <;> cases hasync : method.isAsync <;>
    simp [code, undecorated, hmeta, hasync, PyFunction.HidesCoroutine,
      PyFunction.unwrapped, PyFunction.isCoroutineFunction]

end SagaMethod

structure RegisteredStep (ι U X V E : Type) where
  definition : Saga.StepDefinition ι
  stepMethod : SagaMethod ι U X V E
  compensateMethod : Option (SagaMethod ι U X V E)

def registerStep (attributes : Dict String (SagaMethod ι U X V E))
    (method : SagaMethod ι U X V E) (stepMeta : StepMeta ι) :
    RegisteredStep ι U X V E :=
  let compensateMethod := stepMeta.compensate.bind attributes.get?
  { definition :=
      { id := stepMeta.id
        stepMethod := some method.callable
        compensateMethod := compensateMethod.map SagaMethod.callable
        dependsOn := stepMeta.dependsOn
        retry := stepMeta.retry
        backoffMs := stepMeta.backoffMs
        timeoutMs := stepMeta.timeoutMs
        jitter := stepMeta.jitter
        jitterFactor := stepMeta.jitterFactor
        cpuBound := stepMeta.cpuBound
        compensationRetry := stepMeta.compensationRetry
        compensationBackoffMs := stepMeta.compensationBackoffMs }
    stepMethod := method
    compensateMethod := compensateMethod }

/-- The loop of `SagaRegistry.register_from_bean` over the attributes of the
class. -/
def discoverSteps [DecidableEq ι] (attributes : Dict String (SagaMethod ι U X V E)) :
    Dict ι (RegisteredStep ι U X V E) :=
  (Tcc.dir attributes).foldl (fun steps method =>
    match method.stepMeta with
    | none => steps
    | some stepMeta =>
      steps.set stepMeta.id (registerStep attributes method stepMeta))
    Dict.empty

structure SagaRuntime (ι U X V E : Type) where
  context : U → Saga.SagaContext ι (Option X) E
  setVariables : Dict String (Option X) → U → U
  stored : PyObject U V E → Option X
  extractKey : Option X → String → Option (Option X)
  resolveError : Saga.ResolveError ι → E
  notAwaitable : E

/-- `run_in_executor`: a thread runs the function, and the caller gets what
it returns or raises. -/
def runInExecutor (run : PyRun U V E) : PyRun U V E := run

namespace SagaRuntime

variable [DecidableEq ι] (runtime : SagaRuntime ι U X V E)

def call (method : SagaMethod ι U X V E) (cpuBound : Bool)
    (kwargs : List (String × Saga.Argument ι X E)) : PyRun U V E :=
  if method.code.isCoroutineFunction then
    method.code.callOrAwait runtime.notAwaitable kwargs
  else if cpuBound then runInExecutor (method.code.call kwargs)
  else method.code.call kwargs

def resolve (signature : Saga.Signature ι) (stepInput : Option X) (state : U) :
    Except (Saga.ResolveError ι) (List (String × Saga.Argument ι X E)) :=
  Saga.ArgumentResolver.resolve runtime.extractKey (runtime.context state) stepInput signature

def applySetVariables (signature : Saga.Signature ι)
    (result : PyObject U V E) (world : World U) : World U :=
  { world with
    state := runtime.setVariables
      (Saga.applySetVariables signature (runtime.stored result)
        (runtime.context world.state).sagaVariables) world.state }

def invokeCompensationBy (run : List (String × Saga.Argument ι X E) → PyRun U V E)
    (method : SagaMethod ι U X V E) (stepInput : Option X) : PyRun U V E :=
  fun world =>
    match runtime.resolve method.signature stepInput world.state with
    | .error error => (.error (runtime.resolveError error), world)
    | .ok kwargs => run kwargs world

def invokeStepBy (run : List (String × Saga.Argument ι X E) → PyRun U V E)
    (method : SagaMethod ι U X V E) (stepInput : Option X) : PyRun U V E :=
  fun world =>
    match runtime.invokeCompensationBy run method stepInput world with
    | (.error error, called) => (.error error, called)
    | (.ok result, called) =>
      (.ok result, runtime.applySetVariables method.signature result called)

def invokeStep (step : RegisteredStep ι U X V E) (stepInput : Option X) : PyRun U V E :=
  runtime.invokeStepBy (runtime.call step.stepMethod step.definition.cpuBound)
    step.stepMethod stepInput

def invokeCompensation (method : SagaMethod ι U X V E) (stepInput : Option X) : PyRun U V E :=
  runtime.invokeCompensationBy (runtime.call method false) method stepInput

/-- Every method which is registered for the class does through the invoker
what it does when it is run to completion. -/
def Transparent (attributes : Dict String (SagaMethod ι U X V E)) : Prop :=
  ∀ id step, (discoverSteps attributes).get? id = some step →
    (∀ stepInput, runtime.invokeStep step stepInput =
      runtime.invokeStepBy step.stepMethod.undecorated.complete step.stepMethod stepInput) ∧
    ∀ method, step.compensateMethod = some method →
      ∀ stepInput, runtime.invokeCompensation method stepInput =
        runtime.invokeCompensationBy method.undecorated.complete method stepInput

def Shadowed (method : SagaMethod ι U X V E) : Prop :=
  method.stepMeta.isSome ∧ method.isAsync = true ∧ ∃ stepInput state kwargs,
      runtime.resolve method.signature stepInput state = .ok kwargs

section

variable {runtime} {method : SagaMethod ι U X V E}

omit [DecidableEq ι] in
theorem call_eq (cpuBound : Bool) : runtime.call method cpuBound =
      method.code.callOrAwait runtime.notAwaitable := by
  funext kwargs
  unfold call PyFunction.callOrAwait runInExecutor
  split <;> simp_all

omit [DecidableEq ι] in
theorem call_eq_complete (hshown : ¬ (method.stepMeta.isSome ∧ method.isAsync = true))
    (cpuBound : Bool) :
    runtime.call method cpuBound = method.undecorated.complete := by
  rw [call_eq, ← method.complete_code]
  funext kwargs
  exact PyFunction.callOrAwait_eq_complete _
    (mt SagaMethod.hidesCoroutine_code.mp hshown) kwargs

omit [DecidableEq ι] in
theorem call_shadowed (hmeta : method.stepMeta.isSome)
    (hasync : method.isAsync = true) (cpuBound : Bool)
    (kwargs : List (String × Saga.Argument ι X E)) (world : World U) :
    (runtime.call method cpuBound kwargs world).2 = world := by
  rw [call_eq]
  exact PyFunction.callOrAwait_of_hidden _
    (SagaMethod.hidesCoroutine_code.mpr ⟨hmeta, hasync⟩) kwargs world

theorem invokeCompensationBy_eq_iff (cpuBound : Bool) :
    (∀ stepInput, runtime.invokeCompensationBy (runtime.call method cpuBound) method stepInput =
      runtime.invokeCompensationBy method.undecorated.complete method stepInput) ↔
      ¬ runtime.Shadowed method := by
  constructor
  · rintro hequal ⟨hmeta, hasync, stepInput, state, kwargs, hresolve⟩
    have hbodies := congrArg (fun result => result.2.bodiesRun)
      (congrFun (hequal stepInput) ⟨state, 0⟩)
    simp only [invokeCompensationBy, hresolve,
      call_shadowed hmeta hasync, PyFunction.complete_bodiesRun] at hbodies
    cases hbodies
  · intro hshown stepInput
    by_cases hmethod : method.stepMeta.isSome ∧ method.isAsync = true
    · funext world
      unfold invokeCompensationBy
      cases hresolve : runtime.resolve method.signature stepInput world.state with
      | error error => rfl
      | ok kwargs =>
        exact absurd ⟨hmethod.1, hmethod.2, _, _, _, hresolve⟩ hshown
    · rw [call_eq_complete hmethod]

theorem invokeStepBy_bodiesRun (run : List (String × Saga.Argument ι X E) → PyRun U V E)
    (stepInput : Option X) (world : World U) :
    (runtime.invokeStepBy run method stepInput world).2.bodiesRun =
      (runtime.invokeCompensationBy run method stepInput world).2.bodiesRun := by
  unfold invokeStepBy
  rcases runtime.invokeCompensationBy run method stepInput world with
    ⟨_ | result, called⟩ <;> rfl

theorem invokeStepBy_eq_iff (cpuBound : Bool) :
    (∀ stepInput, runtime.invokeStepBy (runtime.call method cpuBound) method stepInput =
      runtime.invokeStepBy method.undecorated.complete method stepInput) ↔
      ¬ runtime.Shadowed method := by
  constructor
  · rintro hequal ⟨hmeta, hasync, stepInput, state, kwargs, hresolve⟩
    have hbodies := congrArg (fun result => result.2.bodiesRun)
      (congrFun (hequal stepInput) ⟨state, 0⟩)
    simp only [invokeStepBy_bodiesRun, invokeCompensationBy, hresolve,
      call_shadowed hmeta hasync, PyFunction.complete_bodiesRun] at hbodies
    cases hbodies
  · intro hshown stepInput
    funext world
    unfold invokeStepBy
    rw [(invokeCompensationBy_eq_iff cpuBound).mpr hshown stepInput]

theorem transparent_iff (attributes : Dict String (SagaMethod ι U X V E)) :
    runtime.Transparent attributes ↔ ∀ id step, (discoverSteps attributes).get? id = some step →
        ¬ runtime.Shadowed step.stepMethod ∧
          ∀ method, step.compensateMethod = some method → ¬ runtime.Shadowed method := by
  constructor
  · intro htransparent id step hstep
    obtain ⟨haction, hcompensation⟩ := htransparent id step hstep
    refine ⟨(invokeStepBy_eq_iff _).mp haction, ?_⟩
    intro method hmethod
    exact (invokeCompensationBy_eq_iff false).mp (hcompensation method hmethod)
  · intro hshown id step hstep
    obtain ⟨haction, hcompensation⟩ := hshown id step hstep
    refine ⟨(invokeStepBy_eq_iff _).mpr haction, ?_⟩
    intro method hmethod
    exact (invokeCompensationBy_eq_iff false).mpr (hcompensation method hmethod)

end

end SagaRuntime

/-! ## TCC participants -/

structure TccMethod (U X V E : Type) where
  phaseMethod : Tcc.PhaseMethod
  isAsync : Bool
  body : Dict String (Tcc.Argument X) → U → Except E (PyObject U V E) × U

namespace TccMethod

def undecorated (method : TccMethod U X V E) :
    PyFunction U (Dict String (Tcc.Argument X)) V E :=
  if method.isAsync then .async method.body else .sync method.body

def isDecorated (method : TccMethod U X V E) : Bool :=
  method.phaseMethod.tryMeta.isSome || method.phaseMethod.confirmMeta.isSome ||
    method.phaseMethod.cancelMeta.isSome

def code (method : TccMethod U X V E) : PyFunction U (Dict String (Tcc.Argument X)) V E :=
  if method.isDecorated then .wrapper method.undecorated
  else method.undecorated

theorem complete_code (method : TccMethod U X V E) :
    method.code.complete = method.undecorated.complete := by
  unfold code
  split <;> rfl

theorem hidesCoroutine_code {method : TccMethod U X V E} : method.code.HidesCoroutine ↔
      method.isDecorated = true ∧ method.isAsync = true := by
  cases hdecorated : method.isDecorated <;> cases hasync : method.isAsync <;>
    simp [code, undecorated, hdecorated, hasync, PyFunction.HidesCoroutine,
      PyFunction.unwrapped, PyFunction.isCoroutineFunction]

end TccMethod

structure PhaseMethods (U X V E : Type) where
  tryMethod : Option (TccMethod U X V E)
  confirmMethod : Option (TccMethod U X V E)
  cancelMethod : Option (TccMethod U X V E)

namespace PhaseMethods

def method (methods : PhaseMethods U X V E) : Tcc.TccPhase → Option (TccMethod U X V E)
  | .tryPhase => methods.tryMethod
  | .confirm => methods.confirmMethod
  | .cancel => methods.cancelMethod

def resolveOne (methods : PhaseMethods U X V E)
    (method : TccMethod U X V E) : PhaseMethods U X V E :=
  if method.phaseMethod.tryMeta.isSome then
    { methods with tryMethod := some method }
  else if method.phaseMethod.confirmMeta.isSome then
    { methods with confirmMethod := some method }
  else if method.phaseMethod.cancelMeta.isSome then
    { methods with cancelMethod := some method }
  else methods

def resolve (attributes : Dict String (TccMethod U X V E)) : PhaseMethods U X V E :=
  (Tcc.dir attributes).foldl resolveOne ⟨none, none, none⟩

def signatures (methods : PhaseMethods U X V E) : Tcc.ResolvedMethods where
  tryMethod := methods.tryMethod.map TccMethod.phaseMethod
  confirmMethod := methods.confirmMethod.map TccMethod.phaseMethod
  cancelMethod := methods.cancelMethod.map TccMethod.phaseMethod

theorem method_resolveOne {methods : PhaseMethods U X V E}
    {member found : TccMethod U X V E} {phase : Tcc.TccPhase}
    (hfound : (methods.resolveOne member).method phase = some found) :
    found = member ∧ member.isDecorated = true ∨ methods.method phase = some found := by
  unfold resolveOne at hfound
  split at hfound
  · rename_i htry
    have hdecorated : member.isDecorated = true := by
      simp [TccMethod.isDecorated, htry]
    cases phase with
    | tryPhase => exact Or.inl ⟨(Option.some.inj hfound).symm, hdecorated⟩
    | confirm => exact Or.inr hfound
    | cancel => exact Or.inr hfound
  · split at hfound
    · rename_i hconfirm
      have hdecorated : member.isDecorated = true := by
        simp [TccMethod.isDecorated, hconfirm]
      cases phase with
      | tryPhase => exact Or.inr hfound
      | confirm => exact Or.inl ⟨(Option.some.inj hfound).symm, hdecorated⟩
      | cancel => exact Or.inr hfound
    · split at hfound
      · rename_i hcancel
        have hdecorated : member.isDecorated = true := by
          simp [TccMethod.isDecorated, hcancel]
        cases phase with
        | tryPhase => exact Or.inr hfound
        | confirm => exact Or.inr hfound
        | cancel =>
          exact Or.inl ⟨(Option.some.inj hfound).symm, hdecorated⟩
      · exact Or.inr hfound

theorem isDecorated_of_resolve {attributes : Dict String (TccMethod U X V E)}
    {phase : Tcc.TccPhase} {found : TccMethod U X V E}
    (hfound : (resolve attributes).method phase = some found) :
    found.isDecorated = true := by
  have hfold : ∀ (members : List (TccMethod U X V E)) (methods : PhaseMethods U X V E),
      (members.foldl resolveOne methods).method phase = some found →
      found.isDecorated = true ∨ methods.method phase = some found := by
    intro members
    induction members with
    | nil => exact fun methods hmethods => Or.inr hmethods
    | cons member rest ih =>
      intro methods hmethods
      rcases ih _ hmethods with hdecorated | hstep
      · exact Or.inl hdecorated
      · rcases method_resolveOne hstep with ⟨rfl, hmember⟩ | hbefore
        · exact Or.inl hmember
        · exact Or.inr hbefore
  rcases hfold _ _ hfound with hdecorated | hnone
  · exact hdecorated
  · cases phase <;> cases hnone

end PhaseMethods

structure ParticipantClass (ι U X V E : Type) where
  participantMeta : Tcc.ParticipantMeta ι
  attributes : Dict String (TccMethod U X V E)

structure RegisteredParticipant (ι U X V E : Type) where
  definition : Tcc.ParticipantDefinition ι
  methods : PhaseMethods U X V E

def ParticipantClass.register (tccName : String) (participant : ParticipantClass ι U X V E) :
    Except (Tcc.TccValidationError ι) (RegisteredParticipant ι U X V E) :=
  let resolved := PhaseMethods.resolve participant.attributes
  if resolved.tryMethod.isNone then
    .error (.missingTryMethod participant.participantMeta.id tccName)
  else
    .ok
      { definition :=
          { id := participant.participantMeta.id
            order := participant.participantMeta.order
            timeoutMs := participant.participantMeta.timeoutMs
            optional := participant.participantMeta.optional
            tryMethod := resolved.signatures.tryMethod
            confirmMethod := resolved.signatures.confirmMethod
            cancelMethod := resolved.signatures.cancelMethod }
        methods := resolved }

structure TccRuntime (ι U X V E : Type) where
  env : Tcc.TccEnvironment ι X E
  context : U → Tcc.TccContext ι X
  notAwaitable : E
  /-- Python's `None`. -/
  none : V

namespace TccRuntime

variable [DecidableEq ι] (runtime : TccRuntime ι U X V E)

/-- `invoke_try`, `invoke_confirm` and `invoke_cancel`, for a way to run the
method; the latter two return nothing. -/
def invokePhaseBy (run : Dict String (Tcc.Argument X) → PyRun U V E)
    (phase : Tcc.TccPhase) (definition : Tcc.ParticipantDefinition ι)
    (inputData : Option X) : PyRun U V E := fun world =>
  match runtime.env.buildCoro phase definition (runtime.context world.state)
    inputData with
  | .error error => (.error error, world)
  | .ok kwargs =>
    match run kwargs world with
    | (.error error, called) => (.error error, called)
    | (.ok result, called) =>
      match phase with
      | .tryPhase => (.ok result, called)
      | _ => (.ok (.plain runtime.none), called)

def call (method : TccMethod U X V E) (kwargs : Dict String (Tcc.Argument X)) : PyRun U V E :=
  method.code.callOrAwait runtime.notAwaitable kwargs

def invokePhase (phase : Tcc.TccPhase)
    (definition : Tcc.ParticipantDefinition ι) (method : TccMethod U X V E)
    (inputData : Option X) : PyRun U V E :=
  runtime.invokePhaseBy (runtime.call method) phase definition inputData

def Transparent (tccName : String) (participant : ParticipantClass ι U X V E) : Prop :=
  ∀ registered, participant.register tccName = .ok registered →
    ∀ phase method, registered.methods.method phase = some method → ∀ inputData,
        runtime.invokePhase phase registered.definition method inputData =
          runtime.invokePhaseBy method.undecorated.complete phase
            registered.definition inputData

/-- A coroutine function of a participant, with arguments which can be
resolved. -/
def Shadowed (phase : Tcc.TccPhase) (definition : Tcc.ParticipantDefinition ι)
    (method : TccMethod U X V E) : Prop :=
  method.isAsync = true ∧ ∃ inputData state kwargs,
      runtime.env.buildCoro phase definition (runtime.context state) inputData = .ok kwargs

section

variable {runtime} {method : TccMethod U X V E}

omit [DecidableEq ι] in
theorem call_eq_complete (hsync : method.isAsync = false) :
    runtime.call method = method.undecorated.complete := by
  funext kwargs
  rw [← method.complete_code]
  apply PyFunction.callOrAwait_eq_complete
  rw [TccMethod.hidesCoroutine_code, hsync]
  exact fun hhidden => Bool.false_ne_true hhidden.2

omit [DecidableEq ι] in
theorem call_shadowed (hdecorated : method.isDecorated = true) (hasync : method.isAsync = true)
    (kwargs : Dict String (Tcc.Argument X)) (world : World U) :
    (runtime.call method kwargs world).2 = world :=
  PyFunction.callOrAwait_of_hidden _
    (TccMethod.hidesCoroutine_code.mpr ⟨hdecorated, hasync⟩) kwargs world

theorem invokePhaseBy_bodiesRun {run : Dict String (Tcc.Argument X) → PyRun U V E}
    {phase : Tcc.TccPhase} {definition : Tcc.ParticipantDefinition ι}
    {inputData : Option X} {world : World U}
    {kwargs : Dict String (Tcc.Argument X)}
    (hkwargs : runtime.env.buildCoro phase definition
      (runtime.context world.state) inputData = .ok kwargs) :
    (runtime.invokePhaseBy run phase definition inputData
        world).2.bodiesRun = (run kwargs world).2.bodiesRun := by
  unfold invokePhaseBy
  simp only [hkwargs]
  rcases run kwargs world with ⟨error | result, called⟩
  · rfl
  · cases phase <;> rfl

theorem invokePhase_eq_iff (hdecorated : method.isDecorated = true)
    (phase : Tcc.TccPhase) (definition : Tcc.ParticipantDefinition ι) :
    (∀ inputData, runtime.invokePhase phase definition method inputData =
        runtime.invokePhaseBy method.undecorated.complete phase definition inputData) ↔
      ¬ runtime.Shadowed phase definition method := by
  constructor
  · rintro hequal ⟨hasync, inputData, state, kwargs, hkwargs⟩
    have hbodies := congrArg (fun result => result.2.bodiesRun)
      (congrFun (hequal inputData) ⟨state, 0⟩)
    simp only [invokePhase] at hbodies
    rw [invokePhaseBy_bodiesRun hkwargs, invokePhaseBy_bodiesRun hkwargs,
      call_shadowed hdecorated hasync, PyFunction.complete_bodiesRun]
      at hbodies
    cases hbodies
  · intro hshown inputData
    cases hasync : method.isAsync with
    | false => rw [invokePhase, call_eq_complete hasync]
    | true =>
      funext world
      unfold invokePhase invokePhaseBy
      cases hkwargs : runtime.env.buildCoro phase definition
        (runtime.context world.state) inputData with
      | error error => rfl
      | ok kwargs => exact absurd ⟨hasync, _, _, _, hkwargs⟩ hshown

theorem transparent_iff (tccName : String) (participant : ParticipantClass ι U X V E) :
    runtime.Transparent tccName participant ↔
      ∀ registered, participant.register tccName = .ok registered →
        ∀ phase method, registered.methods.method phase = some method →
          ¬ runtime.Shadowed phase registered.definition method := by
  have hdecorated : ∀ registered, participant.register tccName = .ok registered →
      ∀ phase method, registered.methods.method phase = some method →
        method.isDecorated = true := by
    intro registered hregistered phase method hmethod
    unfold ParticipantClass.register at hregistered
    dsimp only at hregistered
    split at hregistered
    · cases hregistered
    · cases hregistered
      exact PhaseMethods.isDecorated_of_resolve hmethod
  constructor
  · intro htransparent registered hregistered phase method hmethod
    exact (invokePhase_eq_iff
      (hdecorated registered hregistered phase method hmethod) phase _).mp
      (htransparent registered hregistered phase method hmethod)
  · intro hshown registered hregistered phase method hmethod
    exact (invokePhase_eq_iff
      (hdecorated registered hregistered phase method hmethod) phase _).mpr
      (hshown registered hregistered phase method hmethod)

end

end TccRuntime

/-- The decorators are transparent for a saga class and for a participant
class exactly when no method which is registered is a coroutine function
behind a wrapper. -/
theorem decorators_transparent_iff [DecidableEq ι] (sagaRuntime : SagaRuntime ι U X V E)
    (attributes : Dict String (SagaMethod ι U X V E))
    (tccRuntime : TccRuntime ι U X V E) (tccName : String)
    (participant : ParticipantClass ι U X V E) :
    (sagaRuntime.Transparent attributes ↔
      ∀ id step, (discoverSteps attributes).get? id = some step →
        ¬ sagaRuntime.Shadowed step.stepMethod ∧
          ∀ method, step.compensateMethod = some method → ¬ sagaRuntime.Shadowed method) ∧
      (tccRuntime.Transparent tccName participant ↔
        ∀ registered, participant.register tccName = .ok registered →
          ∀ phase method, registered.methods.method phase = some method →
            ¬ tccRuntime.Shadowed phase registered.definition method) :=
  ⟨sagaRuntime.transparent_iff attributes, tccRuntime.transparent_iff tccName participant⟩

def countingRuntime : SagaRuntime Unit ℕ Unit Unit Unit where
  context _ := Saga.SagaContext.create "" "" Dict.empty
  setVariables _ count := count
  stored _ := none
  extractKey _ _ := none
  resolveError _ := ()
  notAwaitable := ()

/-- `@saga_step` on an `async def` without parameters. -/
def asyncStep : SagaMethod Unit ℕ Unit Unit Unit where
  signature := ⟨"OrderSaga.reserve", [⟨"self", none⟩], none⟩
  isAsync := true
  body _ count := (.ok (.plain ()), count + 1)
  stepMeta := some
    { id := ()
      compensate := none
      dependsOn := []
      retry := 0
      backoffMs := 0
      timeoutMs := 0
      jitter := false
      jitterFactor := 0
      cpuBound := false
      compensationRetry := none
      compensationBackoffMs := none }

/-- The body of the step does not run. -/
theorem not_transparent_asyncStep :
    ¬ countingRuntime.Transparent (Dict.empty.set "reserve" asyncStep) := by
  intro htransparent
  have hinvoked := congrFun ((htransparent () _ rfl).1 none) ⟨0, 0⟩
  have hcount := congrArg (fun result => result.2.state) hinvoked
  exact absurd hcount (by decide)

end PyFly.Transactional
