import PyFly.Library.Coroutine
import PyFly.TccDefinition

/-!
# Invoking the participants of a TCC

`TccArgumentResolver` and `TccParticipantInvoker` up to the call of the
method, and the replies to everything a TCC awaits: methods, sleeps and
ports.  A reply may be the `CancelledError` of a cancelled caller.
-/

namespace PyFly.Tcc

open Library Transactional

variable {ι V E : Type}

inductive Argument (V : Type)
  | context
  | value (value : Option V)

/-- The awaits of a TCC.  `prepared` holds the keyword arguments of a call, or
what was raised before the method could be called. -/
inductive TccQuery (ι V E : Type)
  | invoke (phase : TccPhase) (participant : ι) (attempt : ℕ)
      (timeoutMs : ℤ) (prepared : Except E (Dict String (Argument V)))
  | sleep (phase : TccPhase) (participant : ι) (attempt : ℕ) (delayMs : ℚ)
  | notify (call : PortCall ι E)
  | persistState (startedAt : ℚ)
  | markCompleted (success : Bool)

abbrev TccReply (V E : Type) := Except (Fault E) (Option V)

/-- What a method does when nobody interferes, and whether it is still running
when its timeout expires. -/
structure MethodOutcome (V E : Type) where
  reply : Except E (Option V)
  overruns : Bool

structure TccEnvironment (ι V E : Type) where
  method : TccPhase → ι → ℕ → MethodOutcome V E
  methodCancelled : TccPhase → ι → ℕ → CancelReply (Option V) E
  callerCancelled : TccQuery ι V E → Bool
  timeoutError : E
  noPhaseMethod : TccPhase → ι → E
  unresolvedHints : String → E
  noTypeHint : String → String → E
  noMarker : String → Hint → E
  extractKey : Option V → String → Except E (Option V)
  unknownParticipant : ι → E
  notRegistered : String → E
  events : Option (EventsPort ι E)
  persistence : Option (PersistencePort E)
  startedAt : ℚ
  completedAt : ℚ

/-- Every method returns in time, `getattr` finds every key, nobody cancels
the caller and no port is configured. -/
def TccEnvironment.obliging (error : E) : TccEnvironment ι V E where
  method := fun _ _ _ => ⟨.ok none, false⟩
  methodCancelled := fun _ _ _ => .propagates
  callerCancelled := fun _ => false
  timeoutError := error
  noPhaseMethod := fun _ _ => error
  unresolvedHints := fun _ => error
  noTypeHint := fun _ _ => error
  noMarker := fun _ _ => error
  extractKey := fun _ _ => .ok none
  unknownParticipant := fun _ => error
  notRegistered := fun _ => error
  events := none
  persistence := none
  startedAt := 0
  completedAt := 0

def TccEnvironment.unconfirmed [DecidableEq ι] (participant : ι) (error : E) :
    TccEnvironment ι V E :=
  { TccEnvironment.obliging error with
    method := fun phase called _ =>
      if phase = .confirm ∧ called = participant then ⟨.error error, false⟩
      else ⟨.ok none, false⟩ }

namespace TccEnvironment

variable (env : TccEnvironment ι V E)

section Resolver

variable [DecidableEq ι]

/-- `_resolve_marker`; `none` stands for `_UNRESOLVED`. -/
def resolveMarker (ctx : TccContext ι V) (inputData : Option V) (participantId : Option ι) :
    Marker → Except E (Option (Argument V))
  | .input none => .ok (some (.value inputData))
  | .input (some key) =>
    (env.extractKey inputData key).map fun found => some (.value found)
  | .fromTry => .ok (some (.value (participantId.bind ctx.getTryResult)))
  | .unrecognised => .ok none

def resolveExtras (ctx : TccContext ι V) (inputData : Option V) (participantId : Option ι) :
    List Marker → Except E (Option (Argument V))
  | [] => .ok none
  | marker :: rest =>
    match env.resolveMarker ctx inputData participantId marker with
    | .error error => .error error
    | .ok (some argument) => .ok (some argument)
    | .ok none => resolveExtras ctx inputData participantId rest

def resolveParameter (ctx : TccContext ι V) (inputData : Option V)
    (participantId : Option ι) (name : String) :
    Hint → Except E (Argument V)
  | .tccContext => .ok .context
  | .annotated true _ => .ok .context
  | .annotated false extras =>
    match env.resolveExtras ctx inputData participantId extras with
    | .error error => .error error
    | .ok (some argument) => .ok argument
    | .ok none => .error (env.noMarker name (.annotated false extras))
  | .unmarked => .error (env.noMarker name .unmarked)

/-- The loop of `resolve` over the parameters still to come. -/
def resolveParameters (method : PhaseMethod) (ctx : TccContext ι V)
    (inputData : Option V) (participantId : Option ι) :
    List Parameter → Dict String (Argument V) → Except E (Dict String (Argument V))
  | [], resolved => .ok resolved
  | parameter :: rest, resolved =>
    if parameter.name = "self" then
      resolveParameters method ctx inputData participantId rest resolved
    else
      match parameter.hint with
      | none => .error (env.noTypeHint parameter.name method.qualname)
      | some hint =>
        match env.resolveParameter ctx inputData participantId
          parameter.name hint with
        | .error error => .error error
        | .ok argument =>
          resolveParameters method ctx inputData participantId rest
            (resolved.set parameter.name argument)

def resolve (method : PhaseMethod) (ctx : TccContext ι V)
    (inputData : Option V) (participantId : Option ι) :
    Except E (Dict String (Argument V)) :=
  if method.hintsResolve then
    env.resolveParameters method ctx inputData participantId method.parameters Dict.empty
  else .error (env.unresolvedHints method.qualname)

/-! ## The participant invoker -/

/-- What `invoke_try`, `invoke_confirm` and `invoke_cancel` do before they
call the method. -/
def preparePhase (phase : TccPhase) (pDef : ParticipantDefinition ι)
    (ctx : TccContext ι V) (inputData : Option V) :
    Except E (Dict String (Argument V)) :=
  match pDef.phaseMethod phase with
  | none => .error (env.noPhaseMethod phase pDef.id)
  | some method => env.resolve method ctx inputData (some pDef.id)

def invokeTry (pDef : ParticipantDefinition ι) (ctx : TccContext ι V)
    (inputData : Option V) : Except E (Dict String (Argument V)) :=
  env.preparePhase .tryPhase pDef ctx inputData

def invokeConfirm (pDef : ParticipantDefinition ι) (ctx : TccContext ι V) :
    Except E (Dict String (Argument V)) :=
  env.preparePhase .confirm pDef ctx none

def invokeCancel (pDef : ParticipantDefinition ι) (ctx : TccContext ι V) :
    Except E (Dict String (Argument V)) :=
  env.preparePhase .cancel pDef ctx none

def buildCoro (phase : TccPhase) (pDef : ParticipantDefinition ι)
    (ctx : TccContext ι V) (inputData : Option V) :
    Except E (Dict String (Argument V)) :=
  match phase with
  | .tryPhase => env.invokeTry pDef ctx inputData
  | .confirm => env.invokeConfirm pDef ctx
  | .cancel => env.invokeCancel pDef ctx

end Resolver

/-! ## The replies -/

def afterCancel : CancelReply (Option V) E → TccReply V E
  | .propagates => .error .cancelled
  | .returns value => .ok value
  | .raises error => .error (.exception error)

def afterPortCancel : CancelReply Unit E → TccReply V E
  | .propagates => .error .cancelled
  | .returns _ => .ok none
  | .raises error => .error (.exception error)

def afterPort : Option E → TccReply V E
  | none => .ok none
  | some error => .error (.exception error)

def methodReply (phase : TccPhase) (participant : ι) (attempt : ℕ)
    (timeoutMs : ℤ) : TccReply V E :=
  let outcome := env.method phase participant attempt
  if 0 < timeoutMs ∧ outcome.overruns then .error (.exception env.timeoutError)
  else
    match outcome.reply with
    | .ok value => .ok value
    | .error error => .error (.exception error)

def answer (query : TccQuery ι V E) : TccReply V E :=
  match query with
  | .invoke _ _ _ _ (.error error) => .error (.exception error)
  | .invoke phase participant attempt timeoutMs (.ok _) =>
    if env.callerCancelled query then
      afterCancel (env.methodCancelled phase participant attempt)
    else env.methodReply phase participant attempt timeoutMs
  | .sleep _ _ _ _ =>
    if env.callerCancelled query then .error .cancelled else .ok none
  | .notify call =>
    match env.events with
    | none => .ok none
    | some port =>
      if env.callerCancelled query then
        afterPortCancel (port.onCancel call)
      else afterPort (port.reply call)
  | .persistState _ =>
    match env.persistence with
    | none => .ok none
    | some port =>
      if env.callerCancelled query then
        afterPortCancel port.persistStateCancelled
      else afterPort port.persistState
  | .markCompleted success =>
    match env.persistence with
    | none => .ok none
    | some port =>
      if env.callerCancelled query then
        afterPortCancel (port.markCompletedCancelled success)
      else afterPort (port.markCompleted success)

end TccEnvironment

end PyFly.Tcc
