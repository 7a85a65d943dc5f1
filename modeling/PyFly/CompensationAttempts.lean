import Mathlib
import PyFly.Compensator

/-!
# One invocation of a compensation

What a single `_invoke_one` asks for and how it ends, when it is not
cancelled.  Every policy is built from these invocations.
-/

namespace PyFly.Saga

open Library Transactional

variable {ι V E : Type}

section Replies

variable (env : Environment ι V E)

@[simp] theorem answer_invoke (stepDef : StepDefinition ι) (attempt : ℕ) :
    env.compensationAnswer (.invoke stepDef attempt) =
      match env.invokeCompensation stepDef attempt with
      | .ok value => .ok (some value)
      | .error error => .error (.exception error) := rfl

@[simp] theorem answer_notify (step : ι) (error : Option E) (attempt : ℕ) :
    env.compensationAnswer (.notify step error attempt) =
      Environment.raisedReply (env.compensatedFailure step error attempt) := rfl

@[simp] theorem answer_handle (step : ι) (error : E) :
    env.compensationAnswer (.handle step error) =
      Environment.raisedReply (env.handlerFailure step error) := rfl

end Replies

def raised : Option E → Except (Fault E) Unit
  | none => .ok ()
  | some error => .error (.exception error)

namespace Compensating

variable (env : Environment ι V E)

@[simp] theorem queries_perform
    (answer : CompensationQuery ι E → CompensationReply V E)
    (query : CompensationQuery ι E) :
    (perform query).queries answer = [query] := by
  unfold perform
  rw [Async.queries_bind, Async.queries_ask, Async.outcome_ask]
  cases answer query with
  | ok value => rfl
  | error fault => rfl

theorem outcome_perform (answer : CompensationQuery ι E → CompensationReply V E)
    (query : CompensationQuery ι E) :
    (perform query).outcome answer = (answer query).map fun _ => () := by
  unfold perform
  rw [Async.outcome_bind, Async.outcome_ask]
  cases answer query with
  | ok value => rfl
  | error fault => rfl

@[simp] theorem outcome_emitCompensated (step : ι) (attempt : ℕ)
    (error : Option E) :
    (emitCompensated env step attempt error).outcome env.compensationAnswer =
      raised (env.compensatedFailure step error attempt) := by
  unfold emitCompensated
  cases hevents : env.events with
  | none =>
    simp [Environment.compensatedFailure, hevents, raised]
  | some port =>
    rw [outcome_perform, answer_notify]
    cases env.compensatedFailure step error attempt with
    | none => rfl
    | some failure => rfl

@[simp] theorem outcome_handleError (step : ι) (error : E) :
    (handleError env step error).outcome env.compensationAnswer =
      raised (env.handlerFailure step error) := by
  unfold handleError
  cases hhandler : env.errorHandler with
  | none =>
    simp [Environment.handlerFailure, hhandler, raised]
  | some handle =>
    rw [outcome_perform, answer_handle]
    cases env.handlerFailure step error with
    | none => rfl
    | some failure => rfl

theorem outcome_invoke (stepDef : StepDefinition ι) (attempt : ℕ) :
    (perform (.invoke stepDef attempt)).outcome env.compensationAnswer =
      match env.invokeCompensation stepDef attempt with
      | .ok _ => .ok ()
      | .error error => .error (.exception error) := by
  rw [outcome_perform, answer_invoke]
  cases env.invokeCompensation stepDef attempt with
  | ok value => rfl
  | error error => rfl

/-- The exception with which the `except` clause of `_invoke_one` ends. -/
def raising (stepDef : StepDefinition ι) (attempt : ℕ)
    (skipErrorHandler : Bool) (error : E) : E :=
  match env.compensatedFailure stepDef.id (some error) attempt with
  | some failure => failure
  | none =>
    if skipErrorHandler then error
    else (env.handlerFailure stepDef.id error).getD error

theorem outcome_except (stepDef : StepDefinition ι) (attempt : ℕ)
    (skipErrorHandler : Bool) (error : E) :
    (do
      emitCompensated env stepDef.id attempt (some error)
      if skipErrorHandler then pure ()
      else handleError env stepDef.id error
      if true then Async.throw (.exception error) else pure () :
        Compensating ι V E Unit).outcome env.compensationAnswer =
      .error (.exception (raising env stepDef attempt skipErrorHandler error)) := by
  rw [Async.outcome_bind, outcome_emitCompensated]
  unfold raising
  cases env.compensatedFailure stepDef.id (some error) attempt with
  | some failure => rfl
  | none =>
    cases skipErrorHandler with
    | true => rfl
    | false =>
      show Async.outcome env.compensationAnswer (_ >>= _) = _
      rw [Async.outcome_bind]
      have hhandle := outcome_handleError env stepDef.id error
      simp only [Bool.false_eq_true, if_false, hhandle]
      cases env.handlerFailure stepDef.id error with
      | none => rfl
      | some failure => rfl

theorem outcome_attempt (stepDef : StepDefinition ι) (attempt : ℕ) : (do
      perform (.invoke stepDef attempt)
      emitCompensated env stepDef.id attempt none :
        Compensating ι V E Unit).outcome env.compensationAnswer =
      match env.invokeCompensation stepDef attempt with
      | .error error => .error (.exception error)
      | .ok _ =>
        raised (env.compensatedFailure stepDef.id none attempt) := by
  rw [Async.outcome_bind, outcome_invoke]
  cases env.invokeCompensation stepDef attempt with
  | error error => rfl
  | ok value => exact outcome_emitCompensated env stepDef.id attempt none

theorem outcome_invokeOne (stepDef : StepDefinition ι) (attempt : ℕ) (skipErrorHandler : Bool) :
    (invokeOne env stepDef attempt true skipErrorHandler).outcome env.compensationAnswer =
      raised (env.invokeOneFailure stepDef attempt skipErrorHandler) := by
  have hbody := @outcome_attempt _ V _ env stepDef attempt
  have hexcept := outcome_except env stepDef attempt skipErrorHandler
  unfold invokeOne
  rw [Async.outcome_catching, hbody]
  unfold Environment.invokeOneFailure
  cases env.invokeCompensation stepDef attempt with
  | error error => exact hexcept error
  | ok value =>
    cases env.compensatedFailure stepDef.id none attempt with
    | none => rfl
    | some failure => exact hexcept failure

/-! ## What an invocation asks for -/

theorem perform_always {property : CompensationQuery ι E → Prop}
    {query : CompensationQuery ι E} (h : property query) :
    Async.Always property (perform query : Compensating ι V E Unit) := by
  refine ⟨h, fun reply => ?_⟩
  cases reply with
  | ok value => trivial
  | error fault => trivial

end Compensating

def CompensationQuery.step? : CompensationQuery ι E → Option ι
  | .scheduled step => some step
  | .invoke stepDef _ => some stepDef.id
  | .notify step _ _ => some step
  | .handle step _ => some step
  | .sleep step _ _ => some step
  | .gather _ _ => none

def CompensationQuery.invoked? : CompensationQuery ι E → Option ι
  | .invoke stepDef _ => some stepDef.id
  | _ => none

def CompensationQuery.delay? : CompensationQuery ι E → Option ℤ
  | .sleep _ _ delayMs => some delayMs
  | _ => none

def CompensationQuery.invokes [DecidableEq ι] (step : ι)
    (query : CompensationQuery ι E) : Bool :=
  query.invoked? = some step

namespace Compensating

variable {env : Environment ι V E} {stepDef : StepDefinition ι}

structure Aside (stepDef : StepDefinition ι)
    (query : CompensationQuery ι E) : Prop where
  step : query.step? = some stepDef.id
  quiet : query.invoked? = none
  awake : query.delay? = none

theorem emitCompensated_always (attempt : ℕ) (error : Option E) :
    Async.Always (Aside stepDef) (emitCompensated env stepDef.id attempt error) := by
  unfold emitCompensated
  cases env.events with
  | none => trivial
  | some port => exact perform_always ⟨rfl, rfl, rfl⟩

theorem handleError_always (error : E) :
    Async.Always (Aside stepDef) (handleError env stepDef.id error) := by
  unfold handleError
  cases env.errorHandler with
  | none => trivial
  | some handle => exact perform_always ⟨rfl, rfl, rfl⟩

/-- The code behind the call of `invoke_compensation`. -/
def afterInvoke (env : Environment ι V E) (stepDef : StepDefinition ι)
    (attempt : ℕ) (raiseOnError skipErrorHandler : Bool)
    (reply : CompensationReply V E) : Compensating ι V E Unit :=
  Async.catching (match reply with
      | .ok _ => emitCompensated env stepDef.id attempt none
      | .error fault => Async.throw fault)
    (exceptException fun error => do
      emitCompensated env stepDef.id attempt (some error)
      if skipErrorHandler then pure ()
      else handleError env stepDef.id error
      if raiseOnError then Async.throw (.exception error) else pure ())

theorem invokeOne_eq_await (attempt : ℕ) (raiseOnError skipErrorHandler : Bool) :
    (invokeOne env stepDef attempt raiseOnError skipErrorHandler : Compensating ι V E Unit) =
      Coroutine.await (.invoke stepDef attempt)
        (afterInvoke env stepDef attempt raiseOnError skipErrorHandler) := by
  show Coroutine.await _ _ = _
  congr 1
  funext reply
  cases reply with
  | ok value => rfl
  | error fault => rfl

theorem afterInvoke_always (attempt : ℕ)
    (raiseOnError skipErrorHandler : Bool) (reply : CompensationReply V E) :
    Async.Always (Aside stepDef)
      (afterInvoke env stepDef attempt raiseOnError skipErrorHandler reply) := by
  apply Async.Always.catching
  · cases reply with
    | ok value => exact emitCompensated_always attempt none
    | error fault => trivial
  · intro fault
    cases fault with
    | cancelled => trivial
    | exception error =>
      apply Async.Always.bind (emitCompensated_always attempt (some error))
      intro _
      cases skipErrorHandler with
      | true =>
        cases raiseOnError with
        | true => trivial
        | false => trivial
      | false =>
        apply Async.Always.bind (handleError_always error)
        intro _
        cases raiseOnError with
        | true => trivial
        | false => trivial

theorem invokeOne_always (attempt : ℕ) (raiseOnError skipErrorHandler : Bool) :
    Async.Always (fun query => query.step? = some stepDef.id)
      (invokeOne env stepDef attempt raiseOnError skipErrorHandler) := by
  rw [invokeOne_eq_await]
  refine ⟨rfl, fun reply => ?_⟩
  exact Coroutine.Always.imp (fun _ haside => haside.step)
    (afterInvoke_always attempt raiseOnError skipErrorHandler reply)

theorem compensateOne_eq : (compensateOne env stepDef : Compensating ι V E Unit) =
      invokeOne env stepDef 0 false false := by
  unfold compensateOne invokeOne
  congr 1
  funext fault
  cases fault with
  | cancelled => rfl
  | exception error =>
    show _ = exceptException _ (.exception error)
    unfold exceptException
    dsimp only
    congr 1
    funext _
    simp [Async.bind_pure_unit]

theorem queries_invokeOne (answer : CompensationQuery ι E → CompensationReply V E) (attempt : ℕ)
    (raiseOnError skipErrorHandler : Bool) :
    ∃ asides, (∀ query ∈ asides, Aside stepDef query) ∧
      (invokeOne env stepDef attempt raiseOnError skipErrorHandler).queries
        answer = .invoke stepDef attempt :: asides := by
  rw [invokeOne_eq_await]
  exact ⟨_, Coroutine.Always.mem_queries
    (afterInvoke_always attempt raiseOnError skipErrorHandler _) answer, rfl⟩

section Counting

variable [DecidableEq ι]

theorem countP_aside {queries : List (CompensationQuery ι E)} (step : ι)
    (haside : ∀ query ∈ queries, Aside stepDef query) :
    queries.countP (CompensationQuery.invokes step) = 0 := by
  rw [List.countP_eq_zero]
  intro query hmem
  simp [CompensationQuery.invokes, (haside query hmem).quiet]

theorem countP_invokeOne (answer : CompensationQuery ι E → CompensationReply V E) (attempt : ℕ)
    (raiseOnError skipErrorHandler : Bool) (step : ι) :
    ((invokeOne env stepDef attempt raiseOnError skipErrorHandler).queries
        answer).countP (CompensationQuery.invokes step) =
      if stepDef.id = step then 1 else 0 := by
  obtain ⟨asides, haside, hqueries⟩ :=
    @queries_invokeOne _ _ _ env stepDef answer attempt raiseOnError skipErrorHandler
  rw [hqueries, List.countP_cons, countP_aside step haside]
  simp [CompensationQuery.invokes, CompensationQuery.invoked?]

end Counting

end Compensating

end PyFly.Saga
