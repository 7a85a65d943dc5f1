import PyFly.EngineClosing

/-!
# The sequence of strict compensations

`_strict_sequential` goes through the `DONE` steps from the last key of the
status dictionary to the first, and the keys are there since the steps
started.  The documentation promises the reverse of the order in which the
steps completed, which is that of `completed_step_ids`.
-/

namespace PyFly.Saga

open Library Transactional Compensating List

variable {ι V E : Type}

def compensationSequence (trace : List (EngineEvent ι V E)) : List ι :=
  (compensationSignals trace).filterMap (Signal.issuedView CompensationQuery.invoked?)

section Order

variable [LinearOrder ι]

def compensationFails (env : Environment ι V E) (saga : SagaDefinition ι) (step : ι) : Bool :=
  match saga.compensable? step with
  | none => false
  | some stepDef =>
    match env.invokeCompensation stepDef 0 with
    | .ok _ => false
    | .error _ => true

/-- `_invoke_one` raises for a step, be it because of the compensation or of
`on_compensated`. -/
def invocationFails (env : Environment ι V E) (saga : SagaDefinition ι) (step : ι) : Bool :=
  match saga.compensable? step with
  | none => false
  | some stepDef => (env.invokeOneFailure stepDef 0 false).isSome

def compensableSteps (saga : SagaDefinition ι) (steps : List ι) : List ι :=
  steps.filter fun step => saga.Compensable step

def ReversesCompletion (env : Environment ι V E) (saga : SagaDefinition ι)
    (completed : List ι) (trace : List (EngineEvent ι V E)) : Prop :=
  compensationSequence trace = takeThrough (compensationFails env saga)
      (compensableSteps saga completed.reverse)

/-- The `DONE` steps, in the order in which they were started, have completed
in this order as far as the compensator goes back, and it stops early only
where a compensation fails. -/
def CompletedAsStarted (env : Environment ι V E) (saga : SagaDefinition ι)
    (started completed : List ι) : Prop :=
  ∀ step ∈ takeThrough (invocationFails env saga) (compensableSteps saga started.reverse),
    step ∈ completed ∧ ∀ other ∈ compensableSteps saga completed,
        Precedes started other step → Precedes completed other step ∧
            (invocationFails env saga step = true → compensationFails env saga step = true)

section Rounds

variable {env : Environment ι V E} {saga : SagaDefinition ι}

variable {step : ι}

theorem mem_compensableSteps {steps : List ι} :
    step ∈ compensableSteps saga steps ↔ step ∈ steps ∧ saga.Compensable step := by
  unfold compensableSteps
  rw [mem_filter, decide_eq_true_eq]

theorem precedes_compensableSteps {steps : List ι} {first second : ι}
    (hfirst : saga.Compensable first) (hsecond : saga.Compensable second) :
    Precedes (compensableSteps saga steps.reverse) first second ↔
      Precedes steps second first := by
  unfold compensableSteps
  rw [precedes_filter, precedes_reverse, decide_eq_true_eq, decide_eq_true_eq]
  exact and_iff_left ⟨hfirst, hsecond⟩

theorem invocationFails_of_compensationFails (h : compensationFails env saga step = true) :
    invocationFails env saga step = true := by
  unfold compensationFails at h
  unfold invocationFails
  cases hstep : saga.compensable? step with
  | none =>
    rw [hstep] at h
    cases h
  | some stepDef =>
    rw [hstep] at h
    dsimp only at h ⊢
    unfold Environment.invokeOneFailure
    cases hinvoke : env.invokeCompensation stepDef 0 with
    | ok value =>
      rw [hinvoke] at h
      cases h
    | error error => rfl

theorem compensable_of_invocationFails
    (h : invocationFails env saga step = true) : saga.Compensable step := by
  unfold invocationFails at h
  cases hstep : saga.compensable? step with
  | none =>
    rw [hstep] at h
    cases h
  | some stepDef => exact SagaDefinition.compensable_of_some hstep

theorem outcome_strictRound_iff :
    (strictRound env saga step).outcome env.compensationAnswer = .ok () ↔
      invocationFails env saga step = false := by
  rw [outcome_strictRound_eq_ok]
  unfold invocationFails
  cases hstep : saga.compensable? step with
  | none => simp
  | some stepDef => simp

omit [LinearOrder ι] in
theorem invoked_asides {stepDef : StepDefinition ι} {queries : List (CompensationQuery ι E)}
    (hasides : ∀ query ∈ queries, Aside stepDef query) :
    queries.filterMap CompensationQuery.invoked? = [] := by
  rw [filterMap_eq_nil_iff]
  intro query hmem
  exact (hasides query hmem).quiet

theorem invoked_strictRound (step : ι) :
    ((strictRound env saga step).queries env.compensationAnswer).filterMap
        CompensationQuery.invoked? =
      if saga.Compensable step then [step] else [] := by
  cases hstep : saga.compensable? step with
  | none =>
    rw [strictRound_of_none hstep, if_neg (SagaDefinition.not_compensable_of_none hstep)]
    rfl
  | some stepDef =>
    obtain ⟨asides, hasides, hqueries⟩ := @queries_invokeOne _ V _ env
      stepDef env.compensationAnswer 0 true false
    rw [strictRound_of_some hstep, hqueries, filterMap_cons, invoked_asides hasides,
      if_pos (SagaDefinition.compensable_of_some hstep)]
    exact congrArg (fun other => [other]) (SagaDefinition.id_of_compensable? hstep)

theorem invoked_strictRounds (steps : List ι) :
    (steps.flatMap fun step => (strictRound env saga step).queries
        env.compensationAnswer).filterMap CompensationQuery.invoked? =
      compensableSteps saga steps := by
  unfold compensableSteps
  induction steps with
  | nil => rfl
  | cons step rest ih =>
    rw [flatMap_cons, filterMap_append, ih, invoked_strictRound, filter_cons]
    by_cases hstep : saga.Compensable step
    · simp [hstep]
    · simp [hstep]

theorem invoked_strictSequential (completed : List ι) (layers : List (List ι)) :
    ((compensate env saga .strictSequential completed layers).queries
        env.compensationAnswer).filterMap CompensationQuery.invoked? =
      takeThrough (invocationFails env saga) (compensableSteps saga completed.reverse) := by
  rw [compensate_strictSequential, Async.queries_forEach,
    Async.begun_eq_takeThrough env.compensationAnswer
      fun step => outcome_strictRound_iff, invoked_strictRounds]
  apply filter_takeThrough
  intro step hfails
  exact decide_eq_true (compensable_of_invocationFails hfails)

theorem strict_plain (env : Environment ι V E) (saga : SagaDefinition ι)
    (completed : List ι) (layers : List (List ι)) :
    (compensate env saga .strictSequential completed layers).Always
      fun query => env.compensationRules.children query = none := by
  rw [compensate_strictSequential]
  apply Async.Always.forEach
  intro step _
  exact Coroutine.Always.imp (fun _ hstep => gatheredTasks_of_step hstep)
    (strictRound_always step)

theorem sequence_of_returned {completed : List ι} {layers : List (List ι)}
    {schedule : List CrewPick} (hcalm : .cancelCaller ∉ schedule)
    {result : Except (Fault E) Unit}
    (hdone : (compensation env saga .strictSequential completed layers
      schedule).state.main = .done result) :
    (compensation env saga .strictSequential completed layers schedule).trace.filterMap
          (Signal.issuedView CompensationQuery.invoked?) =
      takeThrough (invocationFails env saga) (compensableSteps saga completed.reverse) := by
  have hsolo := solo_execute (strict_plain env saga completed layers) hcalm
  have htrace := (hsolo.trace_eq hdone).1
  rw [← invoked_strictSequential completed layers, ← filterMap_script env.compensationAnswer]
  exact congrArg (List.filterMap (Signal.issuedView CompensationQuery.invoked?)) htrace

end Rounds

section Runs

variable {saga : SagaDefinition ι} {env : Environment ι V E}

theorem orchestrate_completed (request : SagaRequest) (schedule : List (OrchestratorPick ι)) :
    (orchestrate saga env request schedule).state.completed.Nodup ∧
      ∀ step ∈ (orchestrate saga env request schedule).state.completed,
        step ∈ (orchestrate saga env request schedule).state.ctx.doneSteps := by
  cases hlayers : computeLayers saga.deps with
  | error error =>
    rw [orchestrate_of_error hlayers]
    unfold Orchestration.start
    rw [hlayers]
    refine ⟨nodup_nil, ?_⟩
    intro step hmem
    cases hmem
  | ok layers =>
    have hinv := @orchestrate_invariant _ V E _ saga env _ hlayers request schedule
    refine ⟨hinv.nodup_completed, ?_⟩
    intro step hmem
    have hreturned := (hinv.mem_completed step).mp hmem
    generalize (orchestrate saga env request schedule).state = config
      at hinv hreturned ⊢
    have hphase : (config.tasks step).phase = .ended .returned := by
      cases hphase : (config.tasks step).phase with
      | ended outcome =>
        rw [hphase] at hreturned
        cases outcome with
        | returned => rfl
        | _ => cases hreturned
      | _ =>
        rw [hphase] at hreturned
        cases hreturned
    apply SagaContext.mem_doneSteps.mpr
    apply hinv.status_done hlayers ?_ hphase
    by_contra hstranger
    rw [(hinv.stranger step hstranger).1] at hphase
    cases hphase

theorem reversed_iff_completedAsStarted {started completed : List ι}
    (hstarted : started.Nodup) (hcompleted : completed.Nodup)
    (hsubset : ∀ step ∈ completed, step ∈ started) :
    takeThrough (invocationFails env saga) (compensableSteps saga started.reverse) =
        takeThrough (compensationFails env saga) (compensableSteps saga completed.reverse) ↔
      CompletedAsStarted env saga started completed := by
  have hnodup : ∀ {steps : List ι}, steps.Nodup → (compensableSteps saga steps.reverse).Nodup :=
    fun hsteps => (nodup_reverse.mpr hsteps).filter _
  have hmem : ∀ {steps : List ι} {step : ι}, step ∈ compensableSteps saga steps.reverse ↔
        step ∈ steps ∧ saga.Compensable step := by
    intro steps step
    rw [mem_compensableSteps, mem_reverse]
  rw [takeThrough_eq_iff (hnodup hstarted) (hnodup hcompleted) ?_
    (fun step => invocationFails_of_compensationFails)]
  · unfold CompletedAsStarted
    refine forall₂_congr fun step hbegun => ?_
    have hcompensable := (hmem.mp (mem_of_mem_takeThrough hbegun)).2
    rw [hmem, and_iff_left hcompensable]
    refine and_congr_right fun _ => forall_congr' fun other => ?_
    rw [hmem, mem_compensableSteps]
    refine forall_congr' fun hother => ?_
    rw [precedes_compensableSteps hcompensable hother.2,
      precedes_compensableSteps hcompensable hother.2]
  · intro step hstep
    obtain ⟨hin, hcompensable⟩ := hmem.mp hstep
    exact hmem.mpr ⟨hsubset step hin, hcompensable⟩

/-- A run under `STRICT_SEQUENTIAL` which enters the compensator undoes the
completed steps from the last to the first exactly when they have completed
in the order in which they were started. -/
theorem reverses_completion_iff (saga : SagaDefinition ι)
    (env : Environment ι V E) (request : SagaRequest)
    (hpolicy : request.policy = .strictSequential)
    (schedule : List (EnginePick ι)) (hcaller : .cancelCaller ∉ schedule)
    (outcome : EngineOutcome ι V E)
    (hend : (executeSaga saga env request schedule).state.phase = .finished outcome)
    (started : List ι)
    (hentered : .compensationEntered started ∈ (executeSaga saga env request schedule).trace) :
    ReversesCompletion env saga
        (executeSaga saga env request schedule).state.orchestration.completed
        (executeSaga saga env request schedule).trace ↔
      CompletedAsStarted env saga started (executeSaga saga env request
          schedule).state.orchestration.completed := by
  have hstage := executeSaga_stage saga env request
    (show True → .cancelCaller ∉ schedule from fun _ => hcaller)
  rw [← mem_compensationEntries] at hentered
  cases hstage with
  | unstarted hphase horchestration hcrew hparts =>
    rw [hparts.entries] at hentered
    cases hentered
  | executing steps hcalm hrun hphase hmain hcrew hsignals hentries =>
    rw [hentries] at hentered
    cases hentered
  | concluded steps hcalm hrun verdict hverdict hpast hcrew hsignals hentries =>
      rw [hentries] at hentered
      cases hentered
  | compensating steps crewSchedule hcalm hrun error hraised hcrewRun hentries hfinish =>
      rw [hentries] at hentered
      have hstarted := mem_singleton.mp hentered
      rcases hfinish with ⟨hphase, _⟩ | ⟨result, hresult, _⟩
      · rw [hphase] at hend
        cases hend
      · have hdone := congrArg (fun run => run.state.main) hcrewRun
        rw [hpolicy] at hcrewRun hdone
        have hsequence := sequence_of_returned (hcalm trivial).2 (hdone.trans hresult)
        have horders := @orchestrate_completed _ V E _ saga env request steps
        rw [hrun] at horders
        rw [hcrewRun] at hsequence
        unfold ReversesCompletion
        rw [hstarted, ← reversed_iff_completedAsStarted
          (SagaContext.doneSteps_nodup _) horders.1 horders.2, ← hsequence]
        rfl

end Runs

end Order

/-- The second step of a chain raises, and the first is compensated. -/
theorem reverses_completion_chain :
    ReversesCompletion (Environment.failing 1 () ()) chainSaga (executeSaga chainSaga
          (Environment.failing 1 () () : Environment ℕ Unit Unit)
          ⟨"1", Dict.empty, .strictSequential⟩
          [.task 0, .task 0, .main 0, .task 1, .task 1, .main 0,
            .main 0]).state.orchestration.completed
        (executeSaga chainSaga (Environment.failing 1 () () : Environment ℕ Unit Unit)
          ⟨"1", Dict.empty, .strictSequential⟩
          [.task 0, .task 0, .main 0, .task 1, .task 1, .main 0, .main 0]).trace ↔
      CompletedAsStarted (Environment.failing 1 () () : Environment ℕ Unit Unit) chainSaga
        [0] (executeSaga chainSaga (Environment.failing 1 () () : Environment ℕ Unit Unit)
          ⟨"1", Dict.empty, .strictSequential⟩
          [.task 0, .task 0, .main 0, .task 1, .task 1, .main 0,
            .main 0]).state.orchestration.completed := by
  apply reverses_completion_iff chainSaga _ _ rfl _ (by simp) _ rfl
  apply mem_compensationEntries.mp
  exact mem_singleton_self [0]

/-- Two parallel steps start in one order and complete in the other, and their
compensations do not run in the reverse of the order of completion. -/
theorem not_reverses_completion_fork :
    ¬ ReversesCompletion (Environment.failing 2 () ()) forkSaga (executeSaga forkSaga
          (Environment.failing 2 () () : Environment ℕ Unit Unit)
          ⟨"1", Dict.empty, .strictSequential⟩
          [.task 0, .task 1, .task 1, .task 0, .main 0, .task 2, .task 2,
            .main 0, .main 0, .main 0]).state.orchestration.completed
        (executeSaga forkSaga (Environment.failing 2 () () : Environment ℕ Unit Unit)
          ⟨"1", Dict.empty, .strictSequential⟩
          [.task 0, .task 1, .task 1, .task 0, .main 0, .task 2, .task 2,
            .main 0, .main 0, .main 0]).trace := by
  intro hreverses
  have hsequence : compensationSequence (executeSaga forkSaga
      (Environment.failing 2 () () : Environment ℕ Unit Unit)
      ⟨"1", Dict.empty, .strictSequential⟩
      [.task 0, .task 1, .task 1, .task 0, .main 0, .task 2, .task 2,
        .main 0, .main 0, .main 0]).trace = [1, 0] := rfl
  have hcompleted : (executeSaga forkSaga
      (Environment.failing 2 () () : Environment ℕ Unit Unit)
      ⟨"1", Dict.empty, .strictSequential⟩
      [.task 0, .task 1, .task 1, .task 0, .main 0, .task 2, .task 2,
        .main 0, .main 0, .main 0]).state.orchestration.completed =
      [1, 0] := rfl
  have horder : takeThrough (compensationFails
        (Environment.failing 2 () () : Environment ℕ Unit Unit) forkSaga)
      (compensableSteps forkSaga [1, 0].reverse) = [0, 1] := rfl
  unfold ReversesCompletion at hreverses
  rw [hsequence, hcompleted, horder] at hreverses
  exact absurd hreverses (by decide)

end PyFly.Saga
