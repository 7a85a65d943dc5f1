import PyFly.Library.Histories
import PyFly.SessionPropagation

/-!
# Transactional calls in several tasks

The active session is kept for each task, the session of a repository in the
repository.  Tasks take turns at every `await`: a call waits for
`session.begin()`, for what its body awaits, and for the end of its session.
-/

namespace PyFly.Data

open Library List

inductive SessionOwner (I : Type)
  | outside (number : ℕ)
  | call (index : I)
  deriving DecidableEq, Repr

/-- A call of a method in a task.  `existing` is the active session which the
task has inherited; the body awaits operations of repositories, and other
things. -/
structure SessionCall (I S R : Type) where
  service : S
  propagation : Propagation
  existing : Option (SessionOwner I)
  awaits : List (Option R)
  propagation_eq : propagation = .required ∨ propagation = .requiresNew

inductive CallPhase (R : Type)
  | waiting
  | beginning
  | running (rest : List (Option R))
  | finishing
  | done

inductive CallEvent (I R : Type)
  | began (call : I)
  | operated (call : I) (repository : R) (session : Option (SessionOwner I))

structure CallsState (I R : Type) where
  phase : I → CallPhase R
  /-- `_active_session_var` in the task of each call. -/
  active : I → Option (SessionOwner I)
  /-- The `_session` of each repository. -/
  bound : R → Option (SessionOwner I)
  events : List (CallEvent I R)

variable {I S R : Type} [DecidableEq I]

def SessionCall.joined (call : SessionCall I S R) : Option (SessionOwner I) :=
  match call.propagation, call.existing with
  | .required, some session => some session
  | _, _ => none

def ownSession (calls : I → SessionCall I S R) (index : I) : SessionOwner I :=
  (calls index).joined.getD (.call index)

namespace CallsState

def initial (calls : I → SessionCall I S R) (injected : R → Option ℕ) : CallsState I R where
  phase _ := .waiting
  active index := (calls index).existing
  bound repository := (injected repository).map .outside
  events := []

def setPhase (index : I) (phase : CallPhase R) (state : CallsState I R) : CallsState I R :=
  { state with phase := Function.update state.phase index phase }

def emit (event : CallEvent I R) (state : CallsState I R) : CallsState I R :=
  { state with events := state.events ++ [event] }

/-- The body goes on to its next `await`.  An operation of a repository reads
the session of the repository when it starts. -/
def proceed (calls : I → SessionCall I S R) (index : I)
    (state : CallsState I R) : List (Option R) → CallsState I R
  | [] =>
    if (calls index).joined.isSome then state.setPhase index .done
    else state.setPhase index .finishing
  | none :: rest => state.setPhase index (.running rest)
  | some repository :: rest =>
    (state.emit (.operated index repository
      (state.bound repository))).setPhase index (.running rest)

/-- `session.begin()` has returned. -/
def begin_ (reaches : S → R → Bool) (calls : I → SessionCall I S R)
    (index : I) (state : CallsState I R) : CallsState I R :=
  { state with
    active := Function.update state.active index (some (.call index))
    bound := fun repository =>
      if reaches (calls index).service repository then some (.call index)
      else state.bound repository }.emit (.began index)

/-- The task of a call runs to its next `await`. -/
def step (reaches : S → R → Bool) (calls : I → SessionCall I S R)
    (index : I) (state : CallsState I R) : CallsState I R :=
  match state.phase index with
  | .waiting =>
    if (calls index).joined.isSome then
      proceed calls index state (calls index).awaits
    else state.setPhase index .beginning
  | .beginning =>
    proceed calls index (state.begin_ reaches calls index) (calls index).awaits
  | .running rest => proceed calls index state rest
  | .finishing =>
    { state with
      active := Function.update state.active index (calls index).existing
    }.setPhase index .done
  | .done => state

/-- The tasks take turns in the order of a schedule. -/
def run (reaches : S → R → Bool) (calls : I → SessionCall I S R)
    (schedule : List I) (state : CallsState I R) : CallsState I R :=
  schedule.foldl (fun state index => step reaches calls index state) state

end CallsState

/-! ## The last call to begin -/

section

variable (reaches : S → R → Bool) (calls : I → SessionCall I S R)
  (injected : R → Option ℕ)

def begunReaching (repository : R) (events : List (CallEvent I R)) : List I :=
  events.filterMap fun
    | .began index =>
      if reaches (calls index).service repository then some index else none
    | .operated _ _ _ => none

def turn (repository : R) (events : List (CallEvent I R)) : Option (SessionOwner I) :=
  match (begunReaching reaches calls repository events).getLast? with
  | some index => some (.call index)
  | none => (injected repository).map .outside

def Isolated (events : List (CallEvent I R)) : Prop :=
  ∀ index repository session, .operated index repository (some session) ∈ events →
    session = ownSession calls index

def InTurn (events : List (CallEvent I R)) : Prop :=
  ∀ front back index repository session owner,
    events = front ++ .operated index repository session :: back →
    turn reaches calls injected repository front = some owner →
    owner = ownSession calls index

def OperatedAt (events : List (CallEvent I R)) : CallEvent I R → Prop
  | .operated _ repository session =>
    session = turn reaches calls injected repository events
  | .began _ => True

structure TakesTurns (state : CallsState I R) : Prop where
  bound_eq : ∀ repository, state.bound repository =
    turn reaches calls injected repository state.events
  operated : AtEach (OperatedAt reaches calls injected) state.events

end

variable {reaches : S → R → Bool} {calls : I → SessionCall I S R}
  {injected : R → Option ℕ}

omit [DecidableEq I] in
theorem turn_operated (repository operated : R) (index : I)
    (session : Option (SessionOwner I)) (events : List (CallEvent I R)) :
    turn reaches calls injected repository (events ++ [.operated index operated session]) =
      turn reaches calls injected repository events := by
  simp [turn, begunReaching]

omit [DecidableEq I] in
theorem turn_began (repository : R) (index : I) (events : List (CallEvent I R)) :
    turn reaches calls injected repository (events ++ [.began index]) =
      if reaches (calls index).service repository then some (.call index)
      else turn reaches calls injected repository events := by
  by_cases hreaches : reaches (calls index).service repository = true
  · simp [turn, begunReaching, hreaches]
  · simp [turn, begunReaching, hreaches]

namespace TakesTurns

variable {state : CallsState I R}

omit [DecidableEq I] in
theorem initial : TakesTurns reaches calls injected (CallsState.initial calls injected) where
  bound_eq _ := rfl
  operated := AtEach.nil

theorem setPhase (hturns : TakesTurns reaches calls injected state)
    (index : I) (phase : CallPhase R) :
    TakesTurns reaches calls injected (state.setPhase index phase) where
  bound_eq := hturns.bound_eq
  operated := hturns.operated

theorem proceed (hturns : TakesTurns reaches calls injected state)
    (index : I) (awaits : List (Option R)) :
    TakesTurns reaches calls injected (state.proceed calls index awaits) := by
  match awaits with
  | [] =>
    rw [CallsState.proceed]
    split
    · exact hturns.setPhase index .done
    · exact hturns.setPhase index .finishing
  | none :: rest => exact hturns.setPhase index (.running rest)
  | some repository :: rest =>
    apply TakesTurns.setPhase
    constructor
    · intro other
      rw [CallsState.emit, turn_operated]
      exact hturns.bound_eq other
    · exact hturns.operated.concat (hturns.bound_eq repository)

theorem begin_ (hturns : TakesTurns reaches calls injected state) (index : I) :
    TakesTurns reaches calls injected (state.begin_ reaches calls index) where
  bound_eq repository := by
    rw [CallsState.begin_, CallsState.emit, turn_began, ← hturns.bound_eq repository]
  operated := hturns.operated.concat trivial

theorem step (hturns : TakesTurns reaches calls injected state) (index : I) :
    TakesTurns reaches calls injected (CallsState.step reaches calls index state) := by
  unfold CallsState.step
  cases state.phase index with
  | waiting =>
    simp only
    split
    · exact hturns.proceed index _
    · exact hturns.setPhase index .beginning
  | beginning => exact (hturns.begin_ index).proceed index _
  | running rest => exact hturns.proceed index rest
  | finishing => exact ⟨hturns.bound_eq, hturns.operated⟩
  | done => exact hturns

theorem run (schedule : List I) (hturns : TakesTurns reaches calls injected state) :
    TakesTurns reaches calls injected (CallsState.run reaches calls schedule state) := by
  induction schedule generalizing state with
  | nil => exact hturns
  | cons index rest ih => exact ih (hturns.step index)

end TakesTurns

def callsTrace (reaches : S → R → Bool) (calls : I → SessionCall I S R)
    (injected : R → Option ℕ) (schedule : List I) : List (CallEvent I R) :=
  (CallsState.run reaches calls schedule (CallsState.initial calls injected)).events

theorem isolated_iff (reaches : S → R → Bool)
    (calls : I → SessionCall I S R) (injected : R → Option ℕ)
    (schedule : List I) :
    Isolated calls (callsTrace reaches calls injected schedule) ↔
      InTurn reaches calls injected (callsTrace reaches calls injected schedule) := by
  have hturns : TakesTurns reaches calls injected _ :=
    TakesTurns.initial.run schedule
  constructor
  · intro hisolated front back index repository session owner hsplit howner
    have hsession : session = some owner :=
      (hturns.operated front _ back hsplit).trans howner
    apply hisolated index repository owner
    rw [hsplit, hsession]
    exact mem_append_right _ mem_cons_self
  · intro hturn index repository session hmem
    obtain ⟨front, back, hsplit⟩ := append_of_mem hmem
    exact hturn front back index repository _ session hsplit
      (hturns.operated front _ back hsplit).symm

def slowCall : SessionCall Bool Unit Unit where
  service := ()
  propagation := .required
  existing := none
  awaits := [none, some ()]
  propagation_eq := Or.inl rfl

/-- The first call uses the repository in the session of the second one. -/
theorem not_isolated_slowCalls : ¬ Isolated (fun _ => slowCall)
      (callsTrace (fun _ _ => true) (fun _ => slowCall) (fun _ => none)
        [true, true, false, false, true]) := by
  intro hisolated
  have howner := hisolated true () (.call false) (by
    show _ ∈ [CallEvent.began true, .began false, .operated true () (some (.call false))]
    exact mem_cons_of_mem _ (mem_cons_of_mem _ mem_cons_self))
  cases howner

end PyFly.Data
