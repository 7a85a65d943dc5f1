import PyFly.StepInvoker
import Mathlib.Data.Bool.Basic

/-!
# One step task

`_execute_step` runs as a task of its own.  Its program counter names the
await it is suspended at; resuming it performs everything up to the next
await and lists the effects of that stretch in program order.  What a phase
says about the effects so far is recorded once, for every way a task can be
resumed.
-/

namespace PyFly.Saga

open Library Transactional List

variable {ι V E : Type}

inductive TaskOutcome (E : Type)
  | returned
  | raised (error : E)
  | cancelled

/-- The await a step task is suspended at.  `created` covers both the first
turn on the event loop and the wait for the layer semaphore. -/
inductive TaskPhase (E : Type)
  | absent
  | created
  | running (attempt : ℕ)
  | emittingSuccess (attempt : ℕ)
  | backingOff (attempt : ℕ)
  | emittingFailed (attempt : ℕ) (error : E)
  | ended (outcome : TaskOutcome E)

structure StepTask (E : Type) where
  phase : TaskPhase E
  backoffMs : ℚ
  cancelRequested : Bool

/-- The task before `create_task`. -/
def StepTask.absent : StepTask E := ⟨.absent, 0, false⟩

inductive StepEffect (ι V E : Type)
  | entered
  | left
  | actionStarted (attempt : ℕ)
  | actionReturned (attempt : ℕ) (value : V)
  | actionRaised (attempt : ℕ) (error : E)
  | actionCancelled (attempt : ℕ)
  | threadAbandoned (attempt : ℕ)
  | threadReturned (attempt : ℕ) (value : V)
  | threadRaised (attempt : ℕ) (error : E)
  | resultSet (value : V)
  | statusSet (status : StepStatus)
  | attemptsSet (attempts : ℕ)
  | latencySet (latencyMs : ℚ)
  | notified (call : PortCall ι E)
  | sleeping (delayMs : ℚ)
  | completed

def TaskPhase.isEnded : TaskPhase E → Bool
  | .ended _ => true
  | _ => false

def TaskPhase.isReturned : TaskPhase E → Bool
  | .ended .returned => true
  | _ => false

def TaskPhase.isRunning : TaskPhase E → Bool
  | .running _ => true
  | _ => false

/-- Inside `async with semaphore`. -/
def TaskPhase.isInside : TaskPhase E → Bool
  | .running _ | .emittingSuccess _ | .backingOff _ | .emittingFailed _ _ =>
    true
  | _ => false

/-- The exception a finished task holds, `finished_task.exception()`. -/
def TaskPhase.exception : TaskPhase E → Option E
  | .ended (.raised error) => some error
  | _ => none

theorem TaskPhase.exception_eq_some {phase : TaskPhase E} {error : E} :
    phase.exception = some error ↔ phase = .ended (.raised error) := by
  constructor
  · intro h
    cases phase with
    | ended outcome =>
      cases outcome with
      | raised failure =>
        have heq : failure = error := Option.some.inj h
        rw [heq]
      | _ => cases h
    | _ => cases h
  · intro h
    rw [h]
    rfl

theorem TaskPhase.isReturned_iff {phase : TaskPhase E} :
    phase.isReturned = true ↔ phase = .ended .returned := by
  constructor
  · intro h
    cases phase with
    | ended outcome =>
      cases outcome with
      | returned => rfl
      | _ => cases h
    | _ => cases h
  · intro h
    rw [h]
    rfl

namespace StepTask

def ended (task : StepTask E) (outcome : TaskOutcome E) : StepTask E :=
  { task with phase := .ended outcome }

def interrupted (stepDef : StepDefinition ι) (attempt : ℕ) : StepEffect ι V E :=
  if stepDef.offloaded then .threadAbandoned attempt
  else .actionCancelled attempt

def startAttempt (task : StepTask E) (attempt : ℕ) : StepTask E × List (StepEffect ι V E) :=
  ({ task with phase := .running attempt },
    [.statusSet .running, .actionStarted attempt])

/-- The `try` body after the action has returned. -/
def attemptSucceeded (env : Environment ι V E) (stepDef : StepDefinition ι)
    (attempt : ℕ) (value : V) (task : StepTask E) :
    StepTask E × List (StepEffect ι V E) :=
  let latencyMs := env.latencyMs stepDef.id attempt
  let recorded : List (StepEffect ι V E) :=
    [.actionReturned attempt value, .resultSet value, .statusSet .done,
      .attemptsSet attempt, .latencySet latencyMs]
  match env.events with
  | none => (task.ended .returned, recorded ++ [.completed, .left])
  | some _ =>
    ({ task with phase := .emittingSuccess attempt },
      recorded ++ [.notified (.onStepSuccess stepDef.id attempt latencyMs)])

/-- The `except Exception` branch: back off, or give up. -/
def attemptFailed (env : Environment ι V E) (stepDef : StepDefinition ι)
    (attempt : ℕ) (error : E) (task : StepTask E) :
    StepTask E × List (StepEffect ι V E) :=
  if attempt < stepDef.maxRetries then
    ({ task with phase := .backingOff attempt },
      [.sleeping (env.backoffDelayMs stepDef attempt task.backoffMs)])
  else
    match env.events with
    | none =>
      (task.ended (.raised error), [.statusSet .failed, .attemptsSet attempt, .left])
    | some _ =>
      ({ task with phase := .emittingFailed attempt error },
        [.statusSet .failed, .attemptsSet attempt,
          .notified (.onStepFailed stepDef.id error attempt
            (env.latencyMs stepDef.id attempt))])

def resume (env : Environment ι V E) (stepDef : StepDefinition ι)
    (available : Bool) (task : StepTask E) :
    Option (StepTask E × List (StepEffect ι V E)) :=
  let awake : StepTask E := { task with cancelRequested := false }
  match task.phase with
  | .absent => none
  | .created =>
    if task.cancelRequested then some (awake.ended .cancelled, [])
    else if available then
      let started := awake.startAttempt 1
      some (started.1, .entered :: started.2)
    else none
  | .running attempt =>
    match env.awaitAttempt stepDef attempt task.cancelRequested with
    | .returned value =>
      some (awake.attemptSucceeded env stepDef attempt value)
    | .raised error =>
      let failed := awake.attemptFailed env stepDef attempt error
      some (failed.1, .actionRaised attempt error :: failed.2)
    | .timedOut =>
      let failed :=
        awake.attemptFailed env stepDef attempt env.timeoutError
      some (failed.1, interrupted stepDef attempt :: failed.2)
    | .cancelled =>
      some (awake.ended .cancelled, [interrupted stepDef attempt, .left])
  | .emittingSuccess attempt =>
    match env.events with
    | none => none
    | some port =>
      match portReply port
          (.onStepSuccess stepDef.id attempt (env.latencyMs stepDef.id attempt))
          task.cancelRequested with
      | .returns _ => some (awake.ended .returned, [.completed, .left])
      | .raises error =>
        some (awake.attemptFailed env stepDef attempt error)
      | .propagates => some (awake.ended .cancelled, [.left])
  | .backingOff attempt =>
    if task.cancelRequested then
      some (awake.ended .cancelled, [.left])
    else
      some ({ awake with backoffMs := task.backoffMs * 2 }.startAttempt
        (attempt + 1))
  | .emittingFailed attempt error =>
    match env.events with
    | none => none
    | some port =>
      match portReply port
          (.onStepFailed stepDef.id error attempt (env.latencyMs stepDef.id attempt))
          task.cancelRequested with
      | .returns _ => some (awake.ended (.raised error), [.left])
      | .raises failure => some (awake.ended (.raised failure), [.left])
      | .propagates => some (awake.ended .cancelled, [.left])
  | .ended _ => none

end StepTask

def StepEffect.isActionStarted : StepEffect ι V E → Bool
  | .actionStarted _ => true
  | _ => false

def StepEffect.isActionReturned : StepEffect ι V E → Bool
  | .actionReturned _ _ => true
  | _ => false

def StepEffect.isCompleted : StepEffect ι V E → Bool
  | .completed => true
  | _ => false

def StepEffect.isThreadAbandoned : StepEffect ι V E → Bool
  | .threadAbandoned _ => true
  | _ => false

def StepEffect.isEntered : StepEffect ι V E → Bool
  | .entered => true
  | _ => false

def StepEffect.isLeft : StepEffect ι V E → Bool
  | .left => true
  | _ => false

/-! ## The transitions of a step task -/

def Environment.SuccessUnobstructed (env : Environment ι V E) (step : ι) :
    Prop :=
  ∀ port, env.events = some port → ∀ attempt latencyMs,
    port.reply (.onStepSuccess step attempt latencyMs) = none ∧ ∀ error,
        port.onCancel (.onStepSuccess step attempt latencyMs) ≠ .raises error

namespace StepTask

variable {env : Environment ι V E} {stepDef : StepDefinition ι}
variable {available : Bool} {task next : StepTask E}
variable {effects : List (StepEffect ι V E)}

inductive Fails (env : Environment ι V E) (stepDef : StepDefinition ι)
    (task : StepTask E) (attempt : ℕ) : List (StepEffect ι V E) → Prop
  | raised (error : E) (hphase : task.phase = .running attempt) :
      Fails env stepDef task attempt [.actionRaised attempt error]
  | interrupted (hphase : task.phase = .running attempt) :
      Fails env stepDef task attempt [interrupted stepDef attempt]
  | obstructed (hphase : task.phase = .emittingSuccess attempt)
      (hport : ¬ env.SuccessUnobstructed stepDef.id) :
      Fails env stepDef task attempt []

inductive Transition (env : Environment ι V E) (stepDef : StepDefinition ι)
    (available : Bool) (task : StepTask E) :
    StepTask E → List (StepEffect ι V E) → Prop
  | cancelledEarly (hphase : task.phase = .created) (hcancel : task.cancelRequested = true) :
      Transition env stepDef available task ⟨.ended .cancelled, task.backoffMs, false⟩ []
  | entered (hphase : task.phase = .created)
      (hcancel : task.cancelRequested = false) (hpermit : available = true) :
      Transition env stepDef available task ⟨.running 1, task.backoffMs, false⟩
        [.entered, .statusSet .running, .actionStarted 1]
  | returnedSilently (attempt : ℕ) (value : V) (hphase : task.phase = .running attempt) :
      Transition env stepDef available task ⟨.ended .returned, task.backoffMs, false⟩
        [.actionReturned attempt value, .resultSet value, .statusSet .done,
          .attemptsSet attempt,
          .latencySet (env.latencyMs stepDef.id attempt), .completed, .left]
  | returned (attempt : ℕ) (value : V) (hphase : task.phase = .running attempt)
      (hevents : env.events.isSome = true) :
      Transition env stepDef available task ⟨.emittingSuccess attempt, task.backoffMs, false⟩
        [.actionReturned attempt value, .resultSet value, .statusSet .done,
          .attemptsSet attempt,
          .latencySet (env.latencyMs stepDef.id attempt),
          .notified (.onStepSuccess stepDef.id attempt (env.latencyMs stepDef.id attempt))]
  | passed (attempt : ℕ) (hphase : task.phase = .emittingSuccess attempt) :
      Transition env stepDef available task
        ⟨.ended .returned, task.backoffMs, false⟩ [.completed, .left]
  | backedOff (attempt : ℕ) (cause : List (StepEffect ι V E))
      (hfails : Fails env stepDef task attempt cause)
      (hretry : attempt < stepDef.maxRetries) :
      Transition env stepDef available task ⟨.backingOff attempt, task.backoffMs, false⟩
        (cause ++ [.sleeping (env.backoffDelayMs stepDef attempt task.backoffMs)])
  | gaveUp (attempt : ℕ) (error : E) (cause : List (StepEffect ι V E))
      (hfails : Fails env stepDef task attempt cause)
      (hlast : stepDef.maxRetries ≤ attempt) :
      Transition env stepDef available task ⟨.ended (.raised error), task.backoffMs, false⟩
        (cause ++ [.statusSet .failed, .attemptsSet attempt, .left])
  | gaveUpLoudly (attempt : ℕ) (error : E) (cause : List (StepEffect ι V E))
      (hfails : Fails env stepDef task attempt cause)
      (hlast : stepDef.maxRetries ≤ attempt)
      (hevents : env.events.isSome = true) :
      Transition env stepDef available task
        ⟨.emittingFailed attempt error, task.backoffMs, false⟩
        (cause ++ [.statusSet .failed, .attemptsSet attempt,
          .notified (.onStepFailed stepDef.id error attempt
            (env.latencyMs stepDef.id attempt))])
  | retried (attempt : ℕ) (hphase : task.phase = .backingOff attempt)
      (hcancel : task.cancelRequested = false) :
      Transition env stepDef available task ⟨.running (attempt + 1), task.backoffMs * 2, false⟩
        [.statusSet .running, .actionStarted (attempt + 1)]
  | reported (attempt : ℕ) (error failure : E)
      (hphase : task.phase = .emittingFailed attempt error) :
      Transition env stepDef available task
        ⟨.ended (.raised failure), task.backoffMs, false⟩ [.left]
  | cancelled (trace : List (StepEffect ι V E)) (hphase : task.phase.isInside = true)
      (hcancel : task.cancelRequested = true)
      (htrace : trace = [] ∨ ∃ attempt, trace = [interrupted stepDef attempt]) :
      Transition env stepDef available task
        ⟨.ended .cancelled, task.backoffMs, false⟩ (trace ++ [.left])

variable {cancelRequested : Bool}

theorem portReply_propagates {port : EventsPort ι E} {call : PortCall ι E}
    (h : portReply port call cancelRequested = .propagates) :
    cancelRequested = true := by
  unfold portReply at h
  cases cancelRequested with
  | true => rfl
  | false =>
    rw [if_neg Bool.false_ne_true] at h
    cases hreply : port.reply call with
    | none =>
      rw [hreply] at h
      cases h
    | some error =>
      rw [hreply] at h
      cases h

theorem not_unobstructed_of_raises {port : EventsPort ι E} {attempt : ℕ}
    {latencyMs : ℚ} {error : E} {step : ι} (hport : env.events = some port)
    (h : portReply port (.onStepSuccess step attempt latencyMs)
      cancelRequested = .raises error) :
    ¬ env.SuccessUnobstructed step := by
  intro hunobstructed
  obtain ⟨hreply, hcancel⟩ := hunobstructed port hport attempt latencyMs
  unfold portReply at h
  cases cancelRequested with
  | true =>
    rw [if_pos rfl] at h
    exact hcancel error h
  | false =>
    rw [if_neg Bool.false_ne_true, hreply] at h
    cases h

theorem awaitAttempt_cancelled {attempt : ℕ}
    (h : env.awaitAttempt stepDef attempt cancelRequested = .cancelled) :
    cancelRequested = true := by
  cases cancelRequested with
  | true => rfl
  | false =>
    unfold Environment.awaitAttempt at h
    cases hmethod : stepDef.stepMethod with
    | none =>
      rw [hmethod] at h
      cases h
    | some method =>
      simp only [hmethod, Bool.false_eq_true, if_false] at h
      split at h
      · cases h
      · split at h
        · cases h
        · cases h

theorem transition_of_succeeded {attempt : ℕ} {value : V}
    (hphase : task.phase = .running attempt)
    (h : attemptSucceeded env stepDef attempt value
      ⟨task.phase, task.backoffMs, false⟩ = (next, effects)) :
    Transition env stepDef available task next effects := by
  unfold attemptSucceeded at h
  cases hevents : env.events with
  | none =>
    rw [hevents] at h
    simp only [ended, Prod.mk.injEq] at h
    rcases h with ⟨rfl, rfl⟩
    exact .returnedSilently attempt value hphase
  | some port =>
    rw [hevents] at h
    simp only [Prod.mk.injEq] at h
    rcases h with ⟨rfl, rfl⟩
    exact .returned attempt value hphase (by rw [hevents]; rfl)

variable {cause : List (StepEffect ι V E)}

theorem transition_of_failed {attempt : ℕ} {error : E} {failure : List (StepEffect ι V E)}
    (hfails : Fails env stepDef task attempt cause)
    (h : attemptFailed env stepDef attempt error
      ⟨task.phase, task.backoffMs, false⟩ = (next, failure)) :
    Transition env stepDef available task next (cause ++ failure) := by
  unfold attemptFailed at h
  by_cases hretry : attempt < stepDef.maxRetries
  · rw [if_pos hretry] at h
    simp only [Prod.mk.injEq] at h
    rcases h with ⟨rfl, rfl⟩
    exact .backedOff attempt cause hfails hretry
  · rw [if_neg hretry] at h
    cases hevents : env.events with
    | none =>
      rw [hevents] at h
      simp only [ended, Prod.mk.injEq] at h
      rcases h with ⟨rfl, rfl⟩
      exact .gaveUp attempt error cause hfails (Nat.le_of_not_lt hretry)
    | some port =>
      rw [hevents] at h
      simp only [Prod.mk.injEq] at h
      rcases h with ⟨rfl, rfl⟩
      exact .gaveUpLoudly attempt error cause hfails
        (Nat.le_of_not_lt hretry) (by rw [hevents]; rfl)

theorem transition_of_resume (h : task.resume env stepDef available = some (next, effects)) :
    Transition env stepDef available task next effects := by
  rcases task with ⟨phase, backoffMs, cancelRequested⟩
  cases phase with
  | absent => simp [resume] at h
  | created =>
    simp only [resume, ended, startAttempt] at h
    cases cancelRequested with
    | true =>
      simp only [if_true, Option.some.injEq, Prod.mk.injEq] at h
      rcases h with ⟨rfl, rfl⟩
      exact .cancelledEarly rfl rfl
    | false =>
      cases available with
      | true =>
        simp only [Bool.false_eq_true, if_false, if_true, Option.some.injEq, Prod.mk.injEq] at h
        rcases h with ⟨rfl, rfl⟩
        exact .entered rfl rfl rfl
      | false => simp at h
  | running attempt =>
    simp only [resume] at h
    cases hreply : env.awaitAttempt stepDef attempt cancelRequested with
    | returned value =>
      rw [hreply] at h
      exact transition_of_succeeded rfl (Option.some.inj h)
    | raised error =>
      rw [hreply] at h
      simp only [Option.some.injEq, Prod.mk.injEq] at h
      rcases h with ⟨rfl, rfl⟩
      exact transition_of_failed (.raised error rfl) rfl
    | timedOut =>
      rw [hreply] at h
      simp only [Option.some.injEq, Prod.mk.injEq] at h
      rcases h with ⟨rfl, rfl⟩
      exact transition_of_failed (.interrupted rfl) rfl
    | cancelled =>
      have hcancel := awaitAttempt_cancelled hreply
      rw [hreply] at h
      simp only [ended, Option.some.injEq, Prod.mk.injEq] at h
      rcases h with ⟨rfl, rfl⟩
      exact .cancelled [interrupted stepDef attempt] rfl hcancel (Or.inr ⟨attempt, rfl⟩)
  | emittingSuccess attempt =>
    simp only [resume] at h
    cases hport : env.events with
    | none =>
      rw [hport] at h
      cases h
    | some port =>
      rw [hport] at h
      simp only at h
      split at h
      · simp only [ended, Option.some.injEq, Prod.mk.injEq] at h
        rcases h with ⟨rfl, rfl⟩
        exact .passed attempt rfl
      · next error hraised =>
          exact transition_of_failed
            (.obstructed rfl (not_unobstructed_of_raises hport hraised))
            (Option.some.inj h)
      · next hcancel =>
          simp only [ended, Option.some.injEq, Prod.mk.injEq] at h
          rcases h with ⟨rfl, rfl⟩
          exact .cancelled [] rfl (portReply_propagates hcancel) (Or.inl rfl)
  | backingOff attempt =>
    simp only [resume, ended, startAttempt] at h
    cases cancelRequested with
    | true =>
      simp only [if_true, Option.some.injEq, Prod.mk.injEq] at h
      rcases h with ⟨rfl, rfl⟩
      exact .cancelled [] rfl rfl (Or.inl rfl)
    | false =>
      simp only [Bool.false_eq_true, if_false, Option.some.injEq, Prod.mk.injEq] at h
      rcases h with ⟨rfl, rfl⟩
      exact .retried attempt rfl rfl
  | emittingFailed attempt error =>
    simp only [resume] at h
    cases hport : env.events with
    | none =>
      rw [hport] at h
      cases h
    | some port =>
      rw [hport] at h
      simp only at h
      split at h
      · simp only [ended, Option.some.injEq, Prod.mk.injEq] at h
        rcases h with ⟨rfl, rfl⟩
        exact .reported attempt error error rfl
      · next failure _ =>
          simp only [ended, Option.some.injEq, Prod.mk.injEq] at h
          rcases h with ⟨rfl, rfl⟩
          exact .reported attempt error failure rfl
      · next hcancel =>
          simp only [ended, Option.some.injEq, Prod.mk.injEq] at h
          rcases h with ⟨rfl, rfl⟩
          exact .cancelled [] rfl (portReply_propagates hcancel) (Or.inl rfl)
  | ended outcome => simp [resume] at h

theorem interrupted_eq_or (stepDef : StepDefinition ι) (attempt : ℕ) :
    (interrupted stepDef attempt : StepEffect ι V E) = .actionCancelled attempt ∨
      (interrupted stepDef attempt : StepEffect ι V E) = .threadAbandoned attempt := by
  unfold interrupted
  cases stepDef.offloaded with
  | false => exact Or.inl rfl
  | true => exact Or.inr rfl

theorem Fails.countP_eq_zero {attempt : ℕ} (h : Fails env stepDef task attempt cause)
    {counted : StepEffect ι V E → Bool}
    (hraised : ∀ error, counted (.actionRaised attempt error) = false)
    (hcancelled : counted (.actionCancelled attempt) = false)
    (habandoned : counted (.threadAbandoned attempt) = false) :
    cause.countP counted = 0 := by
  cases h with
  | raised error hphase => simp [hraised]
  | interrupted hphase =>
    rcases interrupted_eq_or (V := V) (E := E) stepDef attempt with
      heq | heq
    · simp [heq, hcancelled]
    · simp [heq, habandoned]
  | obstructed hphase hport => rfl

theorem Fails.phase {attempt : ℕ} (h : Fails env stepDef task attempt cause) :
    task.phase = .running attempt ∨ task.phase = .emittingSuccess attempt := by
  cases h with
  | raised error hphase => exact Or.inl hphase
  | interrupted hphase => exact Or.inl hphase
  | obstructed hphase hport => exact Or.inr hphase

theorem Fails.isInside {attempt : ℕ} (h : Fails env stepDef task attempt cause) :
    task.phase.isInside = true := by
  rcases h.phase with hphase | hphase
  · rw [hphase]
    rfl
  · rw [hphase]
    rfl

theorem Transition.awake (h : task.Transition env stepDef available next effects) :
    next.cancelRequested = false := by
  cases h <;> rfl

theorem Transition.live (h : task.Transition env stepDef available next effects) :
    task.phase = .created ∨ task.phase.isInside = true := by
  cases h with
  | cancelledEarly hphase hcancel => exact Or.inl hphase
  | entered hphase hcancel hpermit => exact Or.inl hphase
  | backedOff attempt cause hfails hretry => exact Or.inr hfails.isInside
  | gaveUp attempt error cause hfails hlast => exact Or.inr hfails.isInside
  | gaveUpLoudly attempt error cause hfails hlast hevents =>
    exact Or.inr hfails.isInside
  | cancelled trace hphase hcancel htrace => exact Or.inr hphase
  | _ =>
    right
    simp [*, TaskPhase.isInside]

theorem Transition.started (h : task.Transition env stepDef available next effects) :
    next.phase.isEnded = true ∨ next.phase.isInside = true := by
  cases h <;> simp [TaskPhase.isEnded, TaskPhase.isInside]

/-- Permits taken and given back match the change of the program counter. -/
theorem Transition.permits (h : task.Transition env stepDef available next effects) :
    effects.countP StepEffect.isEntered + task.phase.isInside.toNat =
      effects.countP StepEffect.isLeft + next.phase.isInside.toNat := by
  have hcause : ∀ {attempt cause}, Fails env stepDef task attempt cause →
      cause.countP StepEffect.isEntered = 0 ∧ cause.countP StepEffect.isLeft = 0 := by
    intro attempt cause hfails
    exact ⟨hfails.countP_eq_zero (fun _ => rfl) rfl rfl,
      hfails.countP_eq_zero (fun _ => rfl) rfl rfl⟩
  cases h with
  | backedOff attempt cause hfails hretry =>
    rw [countP_append, countP_append, (hcause hfails).1, (hcause hfails).2, hfails.isInside]
    rfl
  | gaveUp attempt error cause hfails hlast =>
    rw [countP_append, countP_append, (hcause hfails).1, (hcause hfails).2, hfails.isInside]
    rfl
  | gaveUpLoudly attempt error cause hfails hlast hevents =>
    rw [countP_append, countP_append, (hcause hfails).1, (hcause hfails).2, hfails.isInside]
    rfl
  | cancelled trace hphase hcancel htrace =>
    rw [hphase]
    rcases htrace with hnil | ⟨attempt, hone⟩
    · rw [hnil]
      rfl
    · rcases interrupted_eq_or (V := V) (E := E) stepDef attempt with
        heq | heq
      · rw [hone, heq]
        rfl
      · rw [hone, heq]
        rfl
  | _ =>
    simp only [*]
    rfl

theorem Transition.permit_available (h : task.Transition env stepDef available next effects)
    (hentered : 0 < effects.countP StepEffect.isEntered) :
    available = true ∧ effects.countP StepEffect.isEntered = 1 := by
  have hcause : ∀ {attempt cause}, Fails env stepDef task attempt cause →
      cause.countP StepEffect.isEntered = 0 := by
    intro attempt cause hfails
    exact hfails.countP_eq_zero (fun _ => rfl) rfl rfl
  cases h with
  | entered hphase hcancel hpermit => exact ⟨hpermit, rfl⟩
  | backedOff attempt cause hfails hretry =>
    rw [countP_append, hcause hfails] at hentered
    exact absurd hentered (Nat.lt_irrefl 0)
  | gaveUp attempt error cause hfails hlast =>
    rw [countP_append, hcause hfails] at hentered
    exact absurd hentered (Nat.lt_irrefl 0)
  | gaveUpLoudly attempt error cause hfails hlast hevents =>
    rw [countP_append, hcause hfails] at hentered
    exact absurd hentered (Nat.lt_irrefl 0)
  | cancelled trace hphase hcancel htrace =>
    rcases htrace with hnil | ⟨attempt, hone⟩
    · rw [hnil] at hentered
      exact absurd hentered (Nat.lt_irrefl 0)
    · rcases interrupted_eq_or (V := V) (E := E) stepDef attempt with
        heq | heq
      · rw [hone, heq] at hentered
        exact absurd hentered (Nat.lt_irrefl 0)
      · rw [hone, heq] at hentered
        exact absurd hentered (Nat.lt_irrefl 0)
  | _ => exact absurd hentered (Nat.lt_irrefl 0)

theorem Transition.completed (h : task.Transition env stepDef available next effects) :
    effects.countP StepEffect.isCompleted = next.phase.isReturned.toNat := by
  have hcause : ∀ {attempt cause}, Fails env stepDef task attempt cause →
      cause.countP StepEffect.isCompleted = 0 := by
    intro attempt cause hfails
    exact hfails.countP_eq_zero (fun _ => rfl) rfl rfl
  cases h with
  | backedOff attempt cause hfails hretry =>
    rw [countP_append, hcause hfails]
    rfl
  | gaveUp attempt error cause hfails hlast =>
    rw [countP_append, hcause hfails]
    rfl
  | gaveUpLoudly attempt error cause hfails hlast hevents =>
    rw [countP_append, hcause hfails]
    rfl
  | cancelled trace hphase hcancel htrace =>
    rcases htrace with hnil | ⟨attempt, hone⟩
    · rw [hnil]
      rfl
    · rcases interrupted_eq_or (V := V) (E := E) stepDef attempt with
        heq | heq
      · rw [hone, heq]
        rfl
      · rw [hone, heq]
        rfl
  | _ => rfl

theorem Transition.cancel_requested (h : task.Transition env stepDef available next effects)
    (hended : next.phase = .ended .cancelled) :
    task.cancelRequested = true := by
  cases h with
  | cancelledEarly hphase hcancel => exact hcancel
  | cancelled trace hphase hcancel htrace => exact hcancel
  | _ => cases hended

theorem Transition.no_thread_abandoned (h : task.Transition env stepDef available next effects)
    (hcpu : stepDef.offloaded = false) :
    effects.countP StepEffect.isThreadAbandoned = 0 := by
  have hinterrupted : ∀ attempt,
      (interrupted stepDef attempt : StepEffect ι V E).isThreadAbandoned =
        false := by
    intro attempt
    unfold interrupted
    rw [hcpu]
    rfl
  have hcause : ∀ {attempt cause}, Fails env stepDef task attempt cause →
      cause.countP StepEffect.isThreadAbandoned = 0 := by
    intro attempt cause hfails
    cases hfails with
    | raised error hphase => rfl
    | interrupted hphase => simp [hinterrupted]
    | obstructed hphase hport => rfl
  cases h with
  | backedOff attempt cause hfails hretry =>
    rw [countP_append, hcause hfails]
    rfl
  | gaveUp attempt error cause hfails hlast =>
    rw [countP_append, hcause hfails]
    rfl
  | gaveUpLoudly attempt error cause hfails hlast hevents =>
    rw [countP_append, hcause hfails]
    rfl
  | cancelled trace hphase hcancel htrace =>
    rcases htrace with hnil | ⟨attempt, hone⟩
    · rw [hnil]
      rfl
    · rw [hone, countP_append, countP_singleton, hinterrupted attempt]
      rfl
  | _ => rfl

end StepTask

/-- How often a task can still be resumed. -/
def TaskPhase.rank (maxRetries : ℕ) : TaskPhase E → ℕ
  | .absent => 3 * maxRetries + 2
  | .created => 3 * maxRetries + 1
  | .running attempt => 3 * (maxRetries - attempt) + 3
  | .emittingSuccess attempt => 3 * (maxRetries - attempt) + 2
  | .backingOff attempt => 3 * (maxRetries - attempt) + 1
  | .emittingFailed _ _ => 1
  | .ended _ => 0

namespace StepTask

variable {env : Environment ι V E} {stepDef : StepDefinition ι}
variable {available : Bool} {task next : StepTask E}
variable {effects : List (StepEffect ι V E)}

theorem Transition.rank_lt (h : task.Transition env stepDef available next effects)
    (hretry : ∀ attempt, task.phase = .backingOff attempt → attempt < stepDef.maxRetries) :
    next.phase.rank stepDef.maxRetries < task.phase.rank stepDef.maxRetries := by
  have hone := stepDef.one_le_maxRetries
  cases h with
  | cancelledEarly hphase hcancel =>
    simp only [hphase, TaskPhase.rank]
    omega
  | entered hphase hcancel hpermit =>
    simp only [hphase, TaskPhase.rank]
    omega
  | backedOff attempt cause hfails hretry =>
    rcases hfails.phase with hphase | hphase
    · simp only [hphase, TaskPhase.rank]
      omega
    · simp only [hphase, TaskPhase.rank]
      omega
  | gaveUp attempt error cause hfails hlast =>
    rcases hfails.phase with hphase | hphase
    · simp only [hphase, TaskPhase.rank]
      omega
    · simp only [hphase, TaskPhase.rank]
      omega
  | gaveUpLoudly attempt error cause hfails hlast hevents =>
    rcases hfails.phase with hphase | hphase
    · simp only [hphase, TaskPhase.rank]
      omega
    · simp only [hphase, TaskPhase.rank]
      omega
  | retried attempt hphase hcancel =>
    have hbounded := hretry attempt hphase
    simp only [hphase, TaskPhase.rank]
    omega
  | cancelled trace hphase hcancel htrace =>
    cases hinside : task.phase with
    | absent =>
      rw [hinside] at hphase
      cases hphase
    | created =>
      rw [hinside] at hphase
      cases hphase
    | ended outcome =>
      rw [hinside] at hphase
      cases hphase
    | _ =>
      simp only [TaskPhase.rank]
      omega
  | _ =>
    simp only [*, TaskPhase.rank]
    omega

/-- A live task can be resumed, unless it waits for a permit. -/
theorem resume_progress (hlive : task.phase = .created ∨ task.phase.isInside = true)
    (hpermit : task.phase = .created → task.cancelRequested = true ∨ available = true)
    (hevents : ∀ attempt, task.phase = .emittingSuccess attempt ∨
      (∃ error, task.phase = .emittingFailed attempt error) → env.events.isSome = true) :
    ∃ next effects, task.resume env stepDef available = some (next, effects) := by
  rw [← Option.isSome_iff_exists.trans Prod.exists]
  rcases task with ⟨phase, backoffMs, cancelRequested⟩
  cases phase with
  | absent =>
    rcases hlive with hphase | hphase
    · cases hphase
    · cases hphase
  | created =>
    simp only [resume]
    cases cancelRequested with
    | true => rfl
    | false =>
      rcases hpermit rfl with hcancel | havailable
      · cases hcancel
      · rw [havailable]
        rfl
  | running attempt =>
    simp only [resume]
    cases env.awaitAttempt stepDef attempt cancelRequested <;> rfl
  | emittingSuccess attempt =>
    obtain ⟨port, hport⟩ :=
      Option.isSome_iff_exists.mp (hevents attempt (Or.inl rfl))
    simp only [resume, hport]
    cases portReply port (.onStepSuccess stepDef.id attempt
      (env.latencyMs stepDef.id attempt)) cancelRequested <;> rfl
  | backingOff attempt =>
    simp only [resume]
    cases cancelRequested <;> rfl
  | emittingFailed attempt error =>
    obtain ⟨port, hport⟩ :=
      Option.isSome_iff_exists.mp (hevents attempt (Or.inr ⟨error, rfl⟩))
    simp only [resume, hport]
    cases portReply port (.onStepFailed stepDef.id error attempt
      (env.latencyMs stepDef.id attempt)) cancelRequested <;> rfl
  | ended outcome =>
    rcases hlive with hphase | hphase
    · cases hphase
    · cases hphase

end StepTask

/-! ## Summaries of the effects of one step -/

structure StepSummary where
  status? : Option StepStatus
  attempts : ℕ
  returned : Bool

namespace StepSummary

def initial : StepSummary := ⟨none, 0, false⟩

def note (summary : StepSummary) : StepEffect ι V E → StepSummary
  | .statusSet status => { summary with status? := some status }
  | .actionStarted _ => { summary with attempts := summary.attempts + 1 }
  | .actionReturned _ _ => { summary with returned := true }
  | _ => summary

def noteAll (summary : StepSummary) (effects : List (StepEffect ι V E)) :
    StepSummary :=
  effects.foldl note summary

def Neutral (effect : StepEffect ι V E) : Prop :=
  ∀ summary : StepSummary, summary.note effect = summary

theorem interrupted_neutral (stepDef : StepDefinition ι) (attempt : ℕ) :
    Neutral (StepTask.interrupted stepDef attempt : StepEffect ι V E) := by
  intro summary
  unfold StepTask.interrupted
  cases stepDef.offloaded with
  | false => rfl
  | true => rfl

end StepSummary

theorem StepSummary.noteAll_attempts (summary : StepSummary)
    (effects : List (StepEffect ι V E)) :
    (summary.noteAll effects).attempts =
      summary.attempts + effects.countP StepEffect.isActionStarted := by
  induction effects generalizing summary with
  | nil => rfl
  | cons effect rest ih =>
    have hrest := ih (summary.note effect)
    unfold noteAll at hrest ⊢
    rw [foldl_cons, hrest, countP_cons]
    cases effect with
    | actionStarted attempt =>
      simp [note, StepEffect.isActionStarted]
      omega
    | _ => simp [note, StepEffect.isActionStarted]

theorem StepSummary.noteAll_returned (summary : StepSummary)
    (effects : List (StepEffect ι V E)) :
    (summary.noteAll effects).returned =
      (summary.returned || effects.any StepEffect.isActionReturned) := by
  induction effects generalizing summary with
  | nil => simp [noteAll]
  | cons effect rest ih =>
    have hrest := ih (summary.note effect)
    unfold noteAll at hrest ⊢
    rw [foldl_cons, hrest, any_cons]
    cases effect <;> simp [note, StepEffect.isActionReturned]

/-! ## What a phase says about the history of its step -/

structure Truthful (env : Environment ι V E) (step : ι)
    (summary : StepSummary) : Prop where
  returned : summary.status? = some .done → summary.returned = true
  done : env.SuccessUnobstructed step → summary.returned = true → summary.status? = some .done

structure Attempting (env : Environment ι V E) (stepDef : StepDefinition ι)
    (attempt : ℕ) (summary : StepSummary) : Prop where
  truthful : Truthful env stepDef.id summary
  attempts : summary.attempts = attempt
  positive : 1 ≤ attempt
  bounded : attempt ≤ stepDef.maxRetries

structure Finished (env : Environment ι V E) (stepDef : StepDefinition ι)
    (outcome : TaskOutcome E) (summary : StepSummary) : Prop where
  truthful : Truthful env stepDef.id summary
  attempts : summary.attempts ≤ stepDef.maxRetries
  returned : outcome = .returned → summary.status? = some .done
  raised : ∀ error, outcome = .raised error → summary.status? = some .failed

def TaskRecord (env : Environment ι V E) (stepDef : StepDefinition ι)
    (summary : StepSummary) : TaskPhase E → Prop
  | .absent => summary = .initial
  | .created => summary = .initial
  | .running attempt =>
    Attempting env stepDef attempt summary ∧ summary.status? = some .running
  | .emittingSuccess attempt =>
    Attempting env stepDef attempt summary ∧ summary.status? = some .done ∧ env.events.isSome
  | .backingOff attempt =>
    Attempting env stepDef attempt summary ∧ attempt < stepDef.maxRetries ∧
      (summary.status? = some .running ∨ ¬ env.SuccessUnobstructed stepDef.id)
  | .emittingFailed attempt _ =>
    Attempting env stepDef attempt summary ∧ summary.status? = some .failed ∧ env.events.isSome
  | .ended outcome => Finished env stepDef outcome summary

section RecordPreservation

variable {env : Environment ι V E} {stepDef : StepDefinition ι}
variable {summary : StepSummary} {attempt : ℕ} {phase : TaskPhase E}

theorem Attempting.finished (h : Attempting env stepDef attempt summary)
    {outcome : TaskOutcome E}
    (hreturned : outcome = .returned → summary.status? = some .done)
    (hraised : ∀ error, outcome = .raised error → summary.status? = some .failed) :
    Finished env stepDef outcome summary := by
  have hattempts := h.attempts
  have hbounded := h.bounded
  refine ⟨h.truthful, ?_, hreturned, hraised⟩
  omega

theorem Attempting.cancelled (h : Attempting env stepDef attempt summary) :
    Finished env stepDef .cancelled summary := by
  apply h.finished
  · intro houtcome
    cases houtcome
  · intro error houtcome
    cases houtcome

/-- Writing `RUNNING` and calling the action opens the next attempt. -/
theorem Truthful.attempting (htruthful : Truthful env stepDef.id summary)
    (hfresh : summary.status? = some .running ∨ summary.status? = none ∨
      ¬ env.SuccessUnobstructed stepDef.id)
    (hattempts : summary.attempts = attempt)
    (hbounded : attempt < stepDef.maxRetries) :
    Attempting env stepDef (attempt + 1)
      ⟨some .running, summary.attempts + 1, summary.returned⟩ := by
  refine ⟨⟨?_, ?_⟩, ?_, ?_, ?_⟩
  · intro hdone
    cases hdone
  · intro hunobstructed hreturned
    have hdone := htruthful.done hunobstructed hreturned
    rcases hfresh with hrunning | hnone | hobstructed
    · rw [hrunning] at hdone
      cases hdone
    · rw [hnone] at hdone
      cases hdone
    · exact absurd hunobstructed hobstructed
  · rw [hattempts]
  · omega
  · omega

theorem TaskRecord.attempting (h : TaskRecord env stepDef summary phase)
    (hinside : phase.isInside = true) :
    ∃ attempt, Attempting env stepDef attempt summary := by
  cases phase with
  | absent => cases hinside
  | created => cases hinside
  | running attempt => exact ⟨attempt, h.1⟩
  | emittingSuccess attempt => exact ⟨attempt, h.1⟩
  | backingOff attempt => exact ⟨attempt, h.1⟩
  | emittingFailed attempt error => exact ⟨attempt, h.1⟩
  | ended outcome => cases hinside

theorem TaskRecord.of_fails {task : StepTask E} {cause : List (StepEffect ι V E)}
    (h : TaskRecord env stepDef summary task.phase)
    (hfails : task.Fails env stepDef attempt cause) :
    Attempting env stepDef attempt summary ∧ (summary.status? = some .running ∨
        ¬ env.SuccessUnobstructed stepDef.id) ∧
      summary.noteAll cause = summary := by
  cases hfails with
  | raised error hphase =>
    rw [hphase] at h
    exact ⟨h.1, Or.inl h.2, rfl⟩
  | interrupted hphase =>
    rw [hphase] at h
    exact ⟨h.1, Or.inl h.2, StepSummary.interrupted_neutral stepDef attempt summary⟩
  | obstructed hphase hport =>
    rw [hphase] at h
    exact ⟨h.1, Or.inr hport, rfl⟩

/-- Giving up writes `FAILED`; no action has returned unless the port stood in
the way. -/
theorem Attempting.gaveUp (h : Attempting env stepDef attempt summary)
    (hstatus : summary.status? = some .running ∨ ¬ env.SuccessUnobstructed stepDef.id) :
    Attempting env stepDef attempt ⟨some .failed, summary.attempts, summary.returned⟩ := by
  refine ⟨⟨?_, ?_⟩, h.attempts, h.positive, h.bounded⟩
  · intro hdone
    cases hdone
  · intro hunobstructed hreturned
    have hdone := h.truthful.done hunobstructed hreturned
    rcases hstatus with hrunning | hobstructed
    · rw [hrunning] at hdone
      cases hdone
    · exact absurd hunobstructed hobstructed

theorem Attempting.returned (h : Attempting env stepDef attempt summary) :
    Attempting env stepDef attempt ⟨some .done, summary.attempts, true⟩ :=
  ⟨⟨fun _ => rfl, fun _ _ => rfl⟩, h.attempts, h.positive, h.bounded⟩

theorem StepSummary.noteAll_append (summary : StepSummary)
    (first second : List (StepEffect ι V E)) :
    summary.noteAll (first ++ second) = (summary.noteAll first).noteAll second := by
  simp [noteAll, foldl_append]

theorem TaskRecord.transition {task next : StepTask E} {available : Bool}
    {effects : List (StepEffect ι V E)}
    (h : TaskRecord env stepDef summary task.phase)
    (htransition : task.Transition env stepDef available next effects) :
    TaskRecord env stepDef (summary.noteAll effects) next.phase := by
  cases htransition with
  | cancelledEarly hphase hcancel =>
    rw [hphase] at h
    have hinitial : summary = .initial := h
    subst hinitial
    refine ⟨⟨?_, ?_⟩, Nat.zero_le _, ?_, ?_⟩
    · intro hdone
      cases hdone
    · intro _ hreturned
      cases hreturned
    · intro houtcome
      cases houtcome
    · intro error houtcome
      cases houtcome
  | entered hphase hcancel hpermit =>
    rw [hphase] at h
    have hinitial : summary = .initial := h
    subst hinitial
    have htruthful : Truthful env stepDef.id StepSummary.initial := by
      constructor
      · intro hdone
        cases hdone
      · intro _ hreturned
        cases hreturned
    exact ⟨htruthful.attempting (Or.inr (Or.inl rfl)) rfl stepDef.one_le_maxRetries, rfl⟩
  | returnedSilently attempt value hphase =>
    rw [hphase] at h
    apply h.1.returned.finished
    · intro _
      rfl
    · intro error houtcome
      cases houtcome
  | returned attempt value hphase hevents =>
    rw [hphase] at h
    exact ⟨h.1.returned, rfl, hevents⟩
  | passed attempt hphase =>
    rw [hphase] at h
    apply h.1.finished
    · intro _
      exact h.2.1
    · intro error houtcome
      cases houtcome
  | backedOff attempt cause hfails hretry =>
    obtain ⟨hattempting, hstatus, hcause⟩ := h.of_fails hfails
    rw [StepSummary.noteAll_append, hcause]
    exact ⟨hattempting, hretry, hstatus⟩
  | gaveUp attempt error cause hfails hlast =>
    obtain ⟨hattempting, hstatus, hcause⟩ := h.of_fails hfails
    rw [StepSummary.noteAll_append, hcause]
    apply (hattempting.gaveUp hstatus).finished
    · intro houtcome
      cases houtcome
    · intro _ _
      rfl
  | gaveUpLoudly attempt error cause hfails hlast hevents =>
    obtain ⟨hattempting, hstatus, hcause⟩ := h.of_fails hfails
    rw [StepSummary.noteAll_append, hcause]
    exact ⟨hattempting.gaveUp hstatus, rfl, hevents⟩
  | retried attempt hphase hcancel =>
    rw [hphase] at h
    rcases h with ⟨hattempting, hbounded, hstatus⟩
    refine ⟨?_, rfl⟩
    apply hattempting.truthful.attempting _ hattempting.attempts hbounded
    rcases hstatus with hrunning | hobstructed
    · exact Or.inl hrunning
    · exact Or.inr (Or.inr hobstructed)
  | reported attempt error failure hphase =>
    rw [hphase] at h
    apply h.1.finished
    · intro houtcome
      cases houtcome
    · intro _ _
      exact h.2.1
  | cancelled trace hphase hcancel htrace =>
    obtain ⟨attempt, hattempting⟩ := h.attempting hphase
    have hsummary : summary.noteAll (trace ++ [.left]) = summary := by
      rcases htrace with hnil | ⟨interruptedAttempt, hinterrupted⟩
      · rw [hnil]
        rfl
      · rw [hinterrupted]
        exact StepSummary.interrupted_neutral stepDef interruptedAttempt _
    rw [hsummary]
    exact hattempting.cancelled

end RecordPreservation

end PyFly.Saga
