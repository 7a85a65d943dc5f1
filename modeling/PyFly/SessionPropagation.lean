import Mathlib.Data.List.Basic
import Mathlib.Data.Nat.Notation

/-!
# Declarative transactions over sessions

The `@transactional` decorator within one task.  `_active_session_var` holds
the active session; a repository keeps the session which it uses in an
attribute of its own.  Sessions are numbered in the order in which they are
opened, and `none` stands for what the container injected into a repository.
-/

namespace PyFly.Data

inductive Propagation
  | required
  | requiresNew
  | supports
  | notSupported
  | never
  | mandatory
  deriving DecidableEq, Repr

inductive Isolation
  | default
  | readUncommitted
  | readCommitted
  | repeatableRead
  | serializable
  deriving DecidableEq, Repr

/-- What a coroutine raises: an `Exception`, or a `BaseException` which is
none, such as `CancelledError`. -/
inductive Raised (E : Type)
  | exception (error : E)
  | runtimeError (message : String)
  | interrupt (error : E)
  deriving DecidableEq, Repr

/-- `isinstance(exc, Exception)`. -/
def Raised.isException {E : Type} : Raised E → Bool
  | exception _ => true
  | runtimeError _ => true
  | interrupt _ => false

/-- How a coroutine ends. -/
inductive Outcome (E : Type)
  | returned
  | raised (exc : Raised E)
  deriving DecidableEq, Repr

/-- The arguments of the decorator; `rollbackFor` tells the instances of
`rollback_for`. -/
structure Transactional (E : Type) where
  propagation : Propagation := .required
  isolation : Isolation := .default
  rollbackFor : Raised E → Bool := Raised.isException

/-- What happens in a run.  A `point` stands in a body of a method of the
service. -/
inductive SessionEvent (S R E : Type)
  | opened (session : ℕ) (service : S)
  | suspended
  | restored
  | ended (session : ℕ) (method : Transactional E) (outcome : Outcome E)
  | committed (session : ℕ)
  | rolledBack (session : ℕ)
  | point (service : S) (active : Option ℕ) (bound : R → Option ℕ)

structure SessionState (S R E : Type) where
  /-- `_active_session_var`. -/
  active : Option ℕ
  /-- The `_session` of each repository. -/
  bound : R → Option ℕ
  next : ℕ
  events : List (SessionEvent S R E)

/-- What the decorator finds: which services have a session factory, which
repositories `_patch_repositories` finds on a service, and how the methods of
a session answer; `none` when they return. -/
structure SessionEnvironment (S R E : Type) where
  sessionFactory : S → Bool
  reaches : S → R → Bool
  executionOptions : ℕ → Option (Raised E)
  begin_ : ℕ → Option (Raised E)
  commit : ℕ → ℕ → Option (Raised E)
  rollback : ℕ → Option (Raised E)

variable {S R E : Type}

abbrev SessionRun (S R E : Type) :=
  SessionState S R E → Outcome E × SessionState S R E

namespace SessionState

def emit (event : SessionEvent S R E) (state : SessionState S R E) : SessionState S R E :=
  { state with events := state.events ++ [event] }

@[simp] theorem emit_events (event : SessionEvent S R E)
    (state : SessionState S R E) :
    (state.emit event).events = state.events ++ [event] :=
  rfl

@[simp] theorem emit_active (event : SessionEvent S R E)
    (state : SessionState S R E) :
    (state.emit event).active = state.active :=
  rfl

@[simp] theorem emit_bound (event : SessionEvent S R E)
    (state : SessionState S R E) :
    (state.emit event).bound = state.bound :=
  rfl

@[simp] theorem emit_next (event : SessionEvent S R E)
    (state : SessionState S R E) :
    (state.emit event).next = state.next :=
  rfl

def extend (events : List (SessionEvent S R E)) (state : SessionState S R E) :
    SessionState S R E :=
  { state with events := state.events ++ events }

@[simp] theorem extend_events (events : List (SessionEvent S R E))
    (state : SessionState S R E) :
    (state.extend events).events = state.events ++ events :=
  rfl

theorem extend_nil (state : SessionState S R E) : state.extend [] = state := by
  simp [extend]

theorem extend_cons (event : SessionEvent S R E)
    (events : List (SessionEvent S R E)) (state : SessionState S R E) :
    state.extend (event :: events) = (state.emit event).extend events := by
  simp [extend, emit]

def patchRepositories (env : SessionEnvironment S R E) (service : S)
    (session : ℕ) (state : SessionState S R E) : SessionState S R E :=
  { state with
    bound := fun repository =>
      if env.reaches service repository then some session
      else state.bound repository }

def entered (env : SessionEnvironment S R E) (service : S)
    (state : SessionState S R E) : SessionState S R E :=
  ({ state with
      active := some state.next
      next := state.next + 1 }.emit
    (.opened state.next service)).patchRepositories env service state.next

@[simp] theorem entered_events (env : SessionEnvironment S R E) (service : S)
    (state : SessionState S R E) :
    (state.entered env service).events = state.events ++ [.opened state.next service] :=
  rfl

/-- `_active_session_var.reset(token)`. -/
def restore (existing : Option ℕ) (state : SessionState S R E) : SessionState S R E :=
  { state with active := existing }.emit .restored

end SessionState

/-- The `except BaseException` branch; `attempts` commits were tried. -/
def handleException (env : SessionEnvironment S R E)
    (method : Transactional E) (session attempts : ℕ) (exc : Raised E) :
    SessionRun S R E := fun state =>
  if method.rollbackFor exc then
    match env.rollback session with
    | none => (.raised exc, state.emit (.rolledBack session))
    | some failure => (.raised failure, state)
  else
    match env.commit session attempts with
    | none => (.raised exc, state.emit (.committed session))
    | some failure => (.raised failure, state)

/-- The `try` statement behind the body of the method. -/
def finishSession (env : SessionEnvironment S R E)
    (method : Transactional E) (session : ℕ) (outcome : Outcome E) :
    SessionRun S R E := fun state =>
  let state := state.emit (.ended session method outcome)
  match outcome with
  | .returned =>
    match env.commit session 0 with
    | none => (.returned, state.emit (.committed session))
    | some exc => handleException env method session 1 exc state
  | .raised exc => handleException env method session 0 exc state

/-- What `handleException` adds to the events. -/
def exceptionEvents (env : SessionEnvironment S R E)
    (method : Transactional E) (session attempts : ℕ) (exc : Raised E) :
    List (SessionEvent S R E) :=
  if method.rollbackFor exc then
    if env.rollback session = none then [.rolledBack session] else []
  else
    if env.commit session attempts = none then [.committed session] else []

def finishEvents (env : SessionEnvironment S R E) (method : Transactional E) (session : ℕ) :
    Outcome E → List (SessionEvent S R E)
  | .returned =>
    match env.commit session 0 with
    | none => [.committed session]
    | some exc => exceptionEvents env method session 1 exc
  | .raised exc => exceptionEvents env method session 0 exc

theorem handleException_state (env : SessionEnvironment S R E)
    (method : Transactional E) (session attempts : ℕ) (exc : Raised E)
    (state : SessionState S R E) :
    (handleException env method session attempts exc state).2 =
      state.extend (exceptionEvents env method session attempts exc) := by
  unfold handleException exceptionEvents
  split
  · cases env.rollback session with
    | none => rfl
    | some failure => exact (state.extend_nil).symm
  · cases env.commit session attempts with
    | none => rfl
    | some failure => exact (state.extend_nil).symm

theorem finishSession_state (env : SessionEnvironment S R E)
    (method : Transactional E) (session : ℕ) (outcome : Outcome E)
    (state : SessionState S R E) :
    (finishSession env method session outcome state).2 =
      state.extend (.ended session method outcome ::
        finishEvents env method session outcome) := by
  rw [SessionState.extend_cons]
  unfold finishSession finishEvents
  cases outcome with
  | returned =>
    simp only
    cases env.commit session 0 with
    | none => rfl
    | some exc => exact handleException_state env method session 1 exc _
  | raised exc => exact handleException_state env method session 0 exc _

def inNewSession (env : SessionEnvironment S R E) (service : S)
    (method : Transactional E) (func : SessionRun S R E) :
    SessionRun S R E := fun state =>
  if env.sessionFactory service = false then
    (.raised (.runtimeError "No _session_factory available on self — ensure the service has an injected async_sessionmaker"), state)
  else
    let session := state.next
    let created := { state with next := session + 1 }
    match (if method.isolation = .default then none
      else env.executionOptions session) with
    | some exc => (.raised exc, created)
    | none =>
      match env.begin_ session with
      | some exc => (.raised exc, created)
      | none =>
        let entered := ({ created with active := some session }.emit
          (.opened session service)).patchRepositories env service session
        let (outcome, left) := func entered
        let (result, finished) :=
          finishSession env method session outcome left
        (result, finished.restore state.active)

theorem inNewSession_cases (env : SessionEnvironment S R E) (service : S)
    (method : Transactional E) (func : SessionRun S R E)
    (state : SessionState S R E) :
    (inNewSession env service method func state).2 = state ∨
      (inNewSession env service method func state).2 = { state with next := state.next + 1 } ∨
      (inNewSession env service method func state).2 =
        ((func (state.entered env service)).2.extend
          (.ended state.next method (func (state.entered env service)).1 ::
            finishEvents env method state.next
              (func (state.entered env service)).1)).restore
          state.active := by
  unfold inNewSession
  split
  · exact Or.inl rfl
  · simp only
    split
    · exact Or.inr (Or.inl rfl)
    · split
      · exact Or.inr (Or.inl rfl)
      · right
        right
        rw [← finishSession_state]
        rfl

/-- The wrapper of `transactional` around a method of a service. -/
def transactional (env : SessionEnvironment S R E) (service : S)
    (method : Transactional E) (func : SessionRun S R E) :
    SessionRun S R E := fun state =>
  let existing := state.active
  match method.propagation with
  | .never =>
    if existing.isSome then
      (.raised (.runtimeError "Propagation.NEVER — active transaction exists"), state)
    else func state
  | .notSupported =>
    let (outcome, after) := func ({ state with active := none }.emit .suspended)
    (outcome, after.restore existing)
  | .supports => func state
  | .mandatory =>
    if existing.isNone then
      (.raised (.runtimeError "Propagation.MANDATORY — no active transaction"), state)
    else func state
  | .required =>
    if existing.isSome then func state
    else inNewSession env service method func state
  | .requiresNew => inNewSession env service method func state

inductive SessionBody (S E : Type)
  | returns
  | raises (exc : Raised E)
  | point (rest : SessionBody S E)
  | call (service : S) (method : Transactional E) (body : SessionBody S E)
      (handled : Bool) (rest : SessionBody S E)

def SessionBody.run (env : SessionEnvironment S R E) (service : S) :
    SessionBody S E → SessionRun S R E
  | returns => fun state => (.returned, state)
  | raises exc => fun state => (.raised exc, state)
  | point rest => fun state =>
    rest.run env service (state.emit (.point service state.active state.bound))
  | call callee method body handled rest => fun state =>
    match transactional env callee method (body.run env callee) state with
    | (.returned, after) => rest.run env service after
    | (.raised exc, after) =>
      if handled then rest.run env service after else (.raised exc, after)

/-- A task before its first call. -/
def SessionState.initial : SessionState S R E where
  active := none
  bound _ := none
  next := 0
  events := []

def SessionBody.trace (env : SessionEnvironment S R E) (service : S)
    (body : SessionBody S E) : List (SessionEvent S R E) :=
  (body.run env service SessionState.initial).2.events

def reliableSessions : SessionEnvironment S R E where
  sessionFactory _ := true
  reaches _ _ := true
  executionOptions _ := none
  begin_ _ := none
  commit _ _ := none
  rollback _ := none

end PyFly.Data
