import PyFly.TccInvoker

/-!
# The three phases of a TCC

`TccExecutionOrchestrator.execute` as a coroutine over the calls it awaits.
The context is threaded through the loops, one round of a loop for each
participant.
-/

namespace PyFly.Tcc

open Library Transactional

variable {ι V E : Type}

abbrev TccRun (ι V E : Type) := Async (TccQuery ι V E) (TccReply V E) (Fault E)

namespace TccRun

def exceptException {α : Type} (code : TccRun ι V E α) : TccRun ι V E (Except E α) :=
  Async.catching (do
      let value ← code
      pure (.ok value))
    fun fault =>
      match fault with
      | .exception error => pure (.error error)
      | .cancelled => Async.throw .cancelled

def backOff (phase : TccPhase) (pDef : ParticipantDefinition ι)
    (attempt : ℕ) (backoffMs : ℚ) : TccRun ι V E Unit :=
  if 0 < backoffMs then do
    let _ ← Async.ask (.sleep phase pDef.id attempt backoffMs)
    pure ()
  else pure ()

/-- The rounds of the retry loop from a given attempt on; `remaining` more
attempts may follow it. -/
def attempts (phase : TccPhase) (pDef : ParticipantDefinition ι)
    (timeoutMs : ℤ) (prepared : Except E (Dict String (Argument V))) :
    ℕ → ℕ → ℚ → TccRun ι V E (Option V)
  | 0, attempt, _ =>
    Async.ask (.invoke phase pDef.id attempt timeoutMs prepared)
  | remaining + 1, attempt, backoffMs => do
      let result ← exceptException
        (Async.ask (.invoke phase pDef.id attempt timeoutMs prepared))
      match result with
      | .ok value => pure value
      | .error _ => do
          backOff phase pDef attempt backoffMs
          attempts phase pDef timeoutMs prepared remaining (attempt + 1) (backoffMs * 2)

def phaseMeta (phase : TccPhase) (pDef : ParticipantDefinition ι) :
    PhaseMeta :=
  ((pDef.phaseMethod phase).bind fun method =>
    method.phaseMeta phase).getD PhaseMeta.empty

def maxRetries (phase : TccPhase) (pDef : ParticipantDefinition ι) : ℕ :=
  (max (phaseMeta phase pDef).retry 1).toNat

def timeoutMs (phase : TccPhase) (pDef : ParticipantDefinition ι) : ℤ :=
  if (phaseMeta phase pDef).timeoutMs = 0 then pDef.timeoutMs
  else (phaseMeta phase pDef).timeoutMs

section Phases

variable [DecidableEq ι] (env : TccEnvironment ι V E)

def invokeWithRetryAndTimeout (phase : TccPhase)
    (pDef : ParticipantDefinition ι) (ctx : TccContext ι V)
    (inputData : Option V) : TccRun ι V E (Option V) :=
  attempts phase pDef (timeoutMs phase pDef) (env.buildCoro phase pDef ctx inputData)
    (maxRetries phase pDef - 1) 1 (phaseMeta phase pDef).backoffMs

def tryParticipants (inputData : Option V) :
    List (ParticipantDefinition ι) → TccContext ι V → List ι →
      TccRun ι V E (TccContext ι V × List ι × Option ι)
  | [], ctx, triedIds => pure (ctx, triedIds, none)
  | pDef :: rest, ctx, triedIds => do
      let result ← exceptException
        (invokeWithRetryAndTimeout env .tryPhase pDef ctx inputData)
      match result with
      | .ok value =>
        tryParticipants inputData rest
          ((ctx.setTryResult pDef.id value).setParticipantStatus pDef.id .tryPhase)
          (triedIds ++ [pDef.id])
      | .error _ =>
        if pDef.optional then
          tryParticipants inputData rest ctx triedIds
        else pure (ctx, triedIds, some pDef.id)

def confirmParticipants (triedIds : List ι) :
    List (ParticipantDefinition ι) → TccContext ι V → TccRun ι V E (TccContext ι V × Option ι)
  | [], ctx => pure (ctx, none)
  | pDef :: rest, ctx =>
    if pDef.id ∉ triedIds then confirmParticipants triedIds rest ctx
    else do
      let result ← exceptException
        (invokeWithRetryAndTimeout env .confirm pDef ctx none)
      match result with
      | .ok _ =>
        confirmParticipants triedIds rest (ctx.setParticipantStatus pDef.id .confirm)
      | .error _ => pure (ctx, some pDef.id)

/-- The loop of `_cancel_participants` over the ids still to come, and the
exception it ends with, if any. -/
def cancelLoop (tccDef : TccDefinition ι) :
    List ι → TccContext ι V → TccRun ι V E (TccContext ι V × Option E)
  | [], ctx => pure (ctx, none)
  | participant :: rest, ctx =>
    match tccDef.participants.get? participant with
    | none => pure (ctx, some (env.unknownParticipant participant))
    | some pDef =>
      if pDef.cancelMethod.isNone then cancelLoop tccDef rest ctx
      else do
        let result ← exceptException
          (invokeWithRetryAndTimeout env .cancel pDef ctx none)
        match result with
        | .ok _ =>
          cancelLoop tccDef rest (ctx.setParticipantStatus participant .cancel)
        | .error _ => cancelLoop tccDef rest ctx

def cancelParticipants (tccDef : TccDefinition ι) (triedIds : List ι)
    (ctx : TccContext ι V) : TccRun ι V E (TccContext ι V × Option E) :=
  cancelLoop env tccDef triedIds.reverse ctx

/-- The CANCEL phase, and the end of `execute` after it. -/
def cancelAfter (tccDef : TccDefinition ι) (triedIds : List ι)
    (failedParticipantId : ι) (ctx : TccContext ι V) :
    TccRun ι V E (TccContext ι V × Except E (Bool × Option ι)) := do
  let (ctx, raised) ←
    cancelParticipants env tccDef triedIds (ctx.setPhase .cancel)
  match raised with
  | some error => pure (ctx, .error error)
  | none => pure (ctx, .ok (false, some failedParticipantId))

def execute (tccDef : TccDefinition ι) (ctx : TccContext ι V) (inputData : Option V) :
    TccRun ι V E (TccContext ι V × Except E (Bool × Option ι)) := do
  let (ctx, triedIds, failedParticipantId) ←
    tryParticipants env inputData tccDef.participantList (ctx.setPhase .tryPhase) []
  match failedParticipantId with
  | some participant => cancelAfter env tccDef triedIds participant ctx
  | none => do
      let (ctx, failedParticipantId) ←
        confirmParticipants env triedIds tccDef.participantList (ctx.setPhase .confirm)
      match failedParticipantId with
      | some participant => cancelAfter env tccDef triedIds participant ctx
      | none => pure (ctx, .ok (true, none))

end Phases

end TccRun

end PyFly.Tcc
