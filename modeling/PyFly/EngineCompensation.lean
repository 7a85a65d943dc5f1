import PyFly.CompensationTally
import PyFly.EngineStages

/-!
# What a failed run compensates

When nothing disturbs the engine and no compensation fails, a failed run
invokes exactly the compensations of the steps whose actions have returned,
once each, whatever the policy and whatever the interleaving.
-/

namespace PyFly.Saga

open Library Transactional Compensating List

variable {ι V E : Type}

def ActionReturned (step : ι) (trace : List (EngineEvent ι V E)) : Prop :=
  ∃ attempt value, .step (step, .actionReturned attempt value) ∈ trace ∨
    .step (step, .threadReturned attempt value) ∈ trace

theorem mem_stepEvents {trace : List (EngineEvent ι V E)} {event : StepEvent ι V E} :
    event ∈ stepEvents trace ↔ .step event ∈ trace := by
  unfold stepEvents
  rw [mem_filterMap]
  constructor
  · intro h
    obtain ⟨other, hmem, hother⟩ := h
    cases other with
    | step found =>
      have hsame : found = event := Option.some.inj hother
      rw [← hsame]
      exact hmem
    | _ => cases hother
  · intro h
    exact ⟨.step event, h, rfl⟩

section Threads

def StepEffect.isThreadReturned : StepEffect ι V E → Bool
  | .threadReturned _ _ => true
  | _ => false

theorem StepTask.Transition.no_thread_returned {env : Environment ι V E}
    {stepDef : StepDefinition ι} {available : Bool} {task next : StepTask E}
    {effects : List (StepEffect ι V E)}
    (h : task.Transition env stepDef available next effects) :
    effects.countP StepEffect.isThreadReturned = 0 := by
  have hinterrupted : ∀ attempt, (StepTask.interrupted stepDef attempt :
        StepEffect ι V E).isThreadReturned = false := by
    intro attempt
    rcases StepTask.interrupted_eq_or stepDef attempt with heq | heq
    · rw [heq]
      rfl
    · rw [heq]
      rfl
  have hcause : ∀ {attempt cause}, StepTask.Fails env stepDef task attempt cause →
      cause.countP StepEffect.isThreadReturned = 0 := by
    intro attempt cause hfails
    exact hfails.countP_eq_zero (fun _ => rfl) rfl rfl
  cases h with
  | backedOff attempt cause hfails hretry =>
    rw [countP_append, hcause hfails]
    rfl
  | gaveUp attempt error cause hfails hlast =>
    rw [countP_append, hcause hfails]
    rfl
  | gaveUpLoudly attempt error cause hfails hlast hevents =>
    rw [countP_append, hcause hfails]
    rfl
  | cancelled trace hphase hcancel htrace =>
    rw [countP_append]
    rcases htrace with hnil | ⟨attempt, hsingle⟩
    · rw [hnil]
      rfl
    · rw [hsingle, countP_cons_of_neg (by simp [hinterrupted])]
      rfl
  | _ => rfl

variable [LinearOrder ι] {saga : SagaDefinition ι} {env : Environment ι V E}

theorem orchestrate_no_threads (hcpu : saga.NoCpuBound)
    (request : SagaRequest) (schedule : List (OrchestratorPick ι)) :
    (orchestrate saga env request schedule).state.threads = [] ∧
      ∀ step attempt value, (step, .threadReturned attempt value) ∉
        (orchestrate saga env request schedule).trace := by
  refine Machine.run_invariant
    (fun (config : Orchestration ι V E) (trace : List (StepEvent ι V E)) =>
      config.threads = [] ∧ ∀ step attempt value, (step, .threadReturned attempt value) ∉ trace)
    ?_ ?_ schedule
  · refine ⟨?_, fun _ _ _ hmem => by cases hmem⟩
    cases hlayers : computeLayers saga.deps with
    | error error => exact (start_of_error hlayers _).2.1
    | ok layers =>
      exact (Orchestration.undisturbed_start hlayers _ rfl).threads
  · intro config trace pick next events hgood hstep
    refine ⟨Orchestration.no_threads_step hcpu hgood.1 hstep, ?_⟩
    intro step attempt value hmem
    rcases mem_append.mp hmem with hold | hnew
    · exact hgood.2 step attempt value hold
    · cases pick with
      | main choice =>
        obtain ⟨moved, _, heq⟩ := Option.map_eq_some_iff.mp hstep
        rw [← (Prod.mk.inj heq).2] at hnew
        cases hnew
      | task other =>
        obtain ⟨stepDef, task, effects, _, htransition, hevents, _⟩ :=
          Orchestration.resumeTask_cases hstep
        rw [hevents] at hnew
        obtain ⟨effect, heffect, hpair⟩ := mem_map.mp hnew
        have hnone := countP_eq_zero.mp htransition.no_thread_returned effect heffect
        rw [(Prod.mk.inj hpair).2] at hnone
        exact hnone rfl
      | thread index =>
        change config.finishThread env index = some (next, events) at hstep
        unfold Orchestration.finishThread at hstep
        rw [hgood.1] at hstep
        cases hstep
      | cancelCaller =>
        obtain ⟨moved, _, heq⟩ := Option.map_eq_some_iff.mp hstep
        rw [← (Prod.mk.inj heq).2] at hnew
        cases hnew

end Threads

section Truth

theorem Truthful.initial (env : Environment ι V E) (step : ι) : Truthful env step .initial := by
  constructor
  · intro h
    cases h
  · intro _ h
    cases h

theorem TaskRecord.truthful {env : Environment ι V E}
    {stepDef : StepDefinition ι} {summary : StepSummary}
    {phase : TaskPhase E} (h : TaskRecord env stepDef summary phase) :
    Truthful env stepDef.id summary := by
  cases phase with
  | absent =>
    have hinitial : summary = .initial := h
    rw [hinitial]
    exact Truthful.initial env stepDef.id
  | created =>
    have hinitial : summary = .initial := h
    rw [hinitial]
    exact Truthful.initial env stepDef.id
  | running attempt => exact h.1.truthful
  | emittingSuccess attempt => exact h.1.truthful
  | backingOff attempt => exact h.1.truthful
  | emittingFailed attempt error => exact h.1.truthful
  | ended outcome => exact Finished.truthful h

theorem summaryOf_returned [LinearOrder ι] {step : ι} {trace : List (StepEvent ι V E)} :
    (summaryOf step trace).returned = true ↔
      ∃ attempt value, (step, .actionReturned attempt value) ∈ trace := by
  unfold summaryOf
  rw [StepSummary.noteAll_returned]
  show (false || _) = true ↔ _
  rw [Bool.false_or, any_eq_true]
  constructor
  · intro h
    obtain ⟨effect, hmem, hreturned⟩ := h
    cases effect with
    | actionReturned attempt value =>
      exact ⟨attempt, value, mem_history.mp hmem⟩
    | _ => cases hreturned
  · intro h
    obtain ⟨attempt, value, hmem⟩ := h
    exact ⟨_, mem_history.mpr hmem, rfl⟩

theorem Environment.QuietPorts.successUnobstructed
    {env : Environment ι V E} (hports : env.QuietPorts) (step : ι) :
    env.SuccessUnobstructed step := by
  intro port hport attempt latencyMs
  have hquiet := hports.events port hport
  exact ⟨hquiet.reply _, hquiet.onCancel _⟩

end Truth

section Completeness

variable [LinearOrder ι] {saga : SagaDefinition ι} {env : Environment ι V E}
variable {request : SagaRequest}

def invocations (step : ι) (trace : List (EngineEvent ι V E)) : ℕ :=
  (compensationSignals trace).countP (Signal.issues (CompensationQuery.invokes step))

structure CompensatesReturned (saga : SagaDefinition ι)
    (result : SagaResult ι V E) (trace : List (EngineEvent ι V E)) :
    Prop where
  once : ∀ step, saga.Compensable step → ActionReturned step trace → invocations step trace = 1
  others : ∀ step, ¬ (saga.Compensable step ∧ ActionReturned step trace) →
    invocations step trace = 0
  done : ∀ step, 0 < invocations step trace → ∃ outcome,
    result.steps.get? step = some outcome ∧ outcome.status = .done

theorem EnginePhase.Past.returned {verdict : Verdict E}
    {ctx : SagaContext ι V E} {result : SagaResult ι V E}
    (h : (EnginePhase.finished (.returned result)).Past saga env verdict ctx) :
    result = buildResult saga env ctx verdict.success verdict.error := by
  generalize hphase : EnginePhase.finished (.returned result) = phase at h
  cases h with
  | concluded =>
    have hconclude := EnginePhase.finished.inj hphase
    unfold Engine.conclude at hconclude
    split at hconclude
    · cases hconclude
    · exact EngineOutcome.returned.inj hconclude
  | _ => cases hphase

theorem stage_of_failed {calm : Prop} {engine : Engine ι V E}
    {trace : List (EngineEvent ι V E)} {result : SagaResult ι V E}
    (hstage : engine.Stage saga env request calm trace)
    (hphase : engine.phase = .finished (.returned result))
    (hfailed : result.success = false) :
    ∃ schedule crewSchedule error,
      (calm → .cancelCaller ∉ schedule ∧ .cancelCaller ∉ crewSchedule) ∧
      orchestrate saga env request schedule = ⟨engine.orchestration, stepEvents trace⟩ ∧
      engine.orchestration.main = .raised error ∧
      compensation env saga request.policy engine.orchestration.ctx.doneSteps
          engine.orchestration.ctx.topologyLayers crewSchedule =
        ⟨engine.crew, compensationSignals trace⟩ ∧
      engine.crew.main.isDone = true ∧
      result = buildResult saga env engine.orchestration.ctx false (some error) := by
  cases hstage with
  | unstarted hearly horchestration hcrew hparts =>
    rw [hphase] at hearly
    simp at hearly
  | executing schedule hcalm hrun hexecuting hmain hcrew hsignals hentries =>
    rw [hphase] at hexecuting
    cases hexecuting
  | concluded schedule hcalm hrun verdict hverdict hpast hcrew hsignals hentries =>
      rw [hphase] at hpast
      have hresult := hpast.returned
      rcases hverdict with ⟨_, hverdict⟩ | ⟨_, hverdict⟩
      · rw [hresult, hverdict] at hfailed
        cases hfailed
      · rw [hverdict] at hpast
        generalize hsame : EnginePhase.finished (.returned result) = phase
          at hpast
        cases hpast with
        | concluded => cases hsame
        | _ => cases hsame
  | compensating schedule crewSchedule hcalm hrun error hraised hcrewRun hentries hend =>
      rcases hend with ⟨hcompensating, _⟩ | ⟨outcome, hdone, hpast⟩
      · rw [hphase] at hcompensating
        cases hcompensating
      · rw [hphase] at hpast
        have hresult := hpast.returned
        refine ⟨schedule, crewSchedule, error, hcalm, hrun, hraised, hcrewRun, ?_, ?_⟩
        · rw [hdone]
          rfl
        · rw [hresult]
          cases outcome with
          | ok value => rfl
          | error fault =>
            cases fault with
            | exception failure => rfl
            | cancelled =>
              generalize hsame : EnginePhase.finished (.returned result) = phase at hpast
              cases hpast with
              | concluded => cases hsame
              | _ => cases hsame

theorem smooth_of_returns (hports : env.QuietPorts) (hreturns : ∀ step attempt, ∃ value,
      env.compensation step attempt = .ok value) (completed : List ι) :
    Smooth env saga completed := by
  intro step _ stepDef hstep
  rw [invokeOneFailure_eq_none]
  obtain ⟨_, hmethod⟩ := Option.filter_eq_some_iff.mp hstep
  obtain ⟨value, hvalue⟩ := hreturns stepDef.id 0
  refine ⟨⟨value, ?_⟩, ?_⟩
  · unfold Environment.invokeCompensation
    obtain ⟨method, hsome⟩ := Option.isSome_iff_exists.mp hmethod
    rw [hsome]
    exact hvalue
  · unfold Environment.compensatedFailure
    cases hevents : env.events with
    | none => rfl
    | some port => exact (hports.events port hevents).reply _

theorem loneFailure_of_smooth {completed : List ι}
    (hsmooth : Smooth env saga completed) (layers : List (List ι)) :
    LoneFailure env saga completed layers := by
  intro before layer after _ _ hfails
  obtain ⟨stepDef, hmem, hfailure⟩ := hfails
  obtain ⟨step, _, hcompleted, hstep⟩ := mem_layerSteps.mp hmem
  rw [hsmooth step hcompleted stepDef hstep] at hfailure
  cases hfailure

/-- In a settled orchestration the `DONE` steps are those whose actions have
returned. -/
theorem done_iff_returned {layers : List (List ι)}
    {config : Orchestration ι V E} {trace : List (StepEvent ι V E)}
    (hinv : Orchestration.Invariant saga env layers config trace)
    (hlayers : computeLayers saga.deps = .ok layers) (step : ι)
    (hunobstructed : env.SuccessUnobstructed step) :
    step ∈ config.ctx.doneSteps ↔
      ∃ attempt value, (step, .actionReturned attempt value) ∈ trace := by
  rw [SagaContext.mem_doneSteps, hinv.status, ← summaryOf_returned]
  by_cases hmem : step ∈ layers.flatten
  · obtain ⟨stepDef, hget⟩ :=
      (Orchestration.mem_flatten_iff hlayers).mp hmem
    have htruthful := (hinv.record step stepDef hget).truthful
    rw [SagaDefinition.id_of_get? hget] at htruthful
    exact ⟨htruthful.returned, htruthful.done hunobstructed⟩
  · rw [(hinv.stranger step hmem).2]
    constructor
    · intro h
      cases h
    · intro h
      cases h

theorem doneSteps_covered {layers : List (List ι)}
    {config : Orchestration ι V E} {trace : List (StepEvent ι V E)}
    (hinv : Orchestration.Invariant saga env layers config trace) :
    ∀ step ∈ config.ctx.doneSteps, step ∈ layers.flatten := by
  intro step hdone
  by_contra hmem
  rw [SagaContext.mem_doneSteps, hinv.status, (hinv.stranger step hmem).2]
    at hdone
  cases hdone

theorem orchestrate_covered (request : SagaRequest) (schedule : List (OrchestratorPick ι)) :
    (orchestrate saga env request schedule).state.ctx.topologyLayers.flatten.Nodup ∧
      ∀ step ∈ (orchestrate saga env request schedule).state.ctx.doneSteps,
        step ∈ saga.steps.keys ∧ step ∈ (orchestrate saga env request
            schedule).state.ctx.topologyLayers.flatten := by
  cases hlayers : computeLayers saga.deps with
  | error error =>
    rw [orchestrate_of_error hlayers]
    unfold Orchestration.start
    rw [hlayers]
    refine ⟨nodup_nil, ?_⟩
    intro step hmem
    cases hmem
  | ok layers =>
    have hinv := @orchestrate_invariant _ V E _ saga env _ hlayers request schedule
    rw [hinv.topology]
    refine ⟨Orchestration.flatten_nodup hlayers, ?_⟩
    intro step hmem
    have hcovered := doneSteps_covered hinv step hmem
    obtain ⟨stepDef, hget⟩ :=
      (Orchestration.mem_flatten_iff hlayers).mp hcovered
    exact ⟨Dict.mem_keys_of_get? hget, hcovered⟩

theorem invocations_of_crew {engine : Engine ι V E}
    {trace : List (EngineEvent ι V E)} {crewSchedule : List CrewPick}
    (hcalm : .cancelCaller ∉ crewSchedule)
    (hcrewRun : compensation env saga request.policy engine.orchestration.ctx.doneSteps
        engine.orchestration.ctx.topologyLayers crewSchedule =
      ⟨engine.crew, compensationSignals trace⟩)
    (hdone : engine.crew.main.isDone = true)
    (hnodup : engine.orchestration.ctx.topologyLayers.flatten.Nodup)
    (hcover : ∀ step ∈ engine.orchestration.ctx.doneSteps,
      step ∈ engine.orchestration.ctx.topologyLayers.flatten)
    (hretried : request.policy = .retryWithBackoff →
      Retried saga engine.orchestration.ctx.doneSteps)
    (hsmooth : Smooth env saga engine.orchestration.ctx.doneSteps)
    (step : ι) :
    invocations step trace =
      if step ∈ engine.orchestration.ctx.doneSteps ∧ saga.Compensable step
      then 1 else 0 := by
  have hmain := congrArg (fun run => run.state.main.isDone) hcrewRun
  have hissues := (agreeable_execute (@agreeable_compensate _ V E _ env saga
      request.policy _ _ fun _ => loneFailure_of_smooth hsmooth
        engine.orchestration.ctx.topologyLayers)
    (CompensationQuery.invokes step) hcalm (hmain.trans hdone)).2.1
  have htrace := congrArg (fun run => run.trace.countP
    (Signal.issues (CompensationQuery.invokes step))) hcrewRun
  rw [← weight_compensate engine.orchestration.ctx.doneSteps_nodup hnodup
    (fun _ => hcover) hretried hsmooth step]
  exact htrace.symm.trans hissues

theorem execute_compensates_returned (hvalid : saga.Valid)
    (hcpu : saga.NoCpuBound) (hports : env.QuietPorts)
    (hretry : ∀ step stepDef, saga.steps.get? step = some stepDef →
      ∀ count, stepDef.compensationRetry = some count → 1 ≤ count)
    (hreturns : ∀ step attempt, ∃ value, env.compensation step attempt = .ok value)
    (request : SagaRequest) (schedule : List (EnginePick ι))
    (hcaller : .cancelCaller ∉ schedule) (result : SagaResult ι V E)
    (hend : (executeSaga saga env request schedule).state.phase = .finished (.returned result))
    (hfailed : result.success = false) :
    CompensatesReturned saga result (executeSaga saga env request schedule).trace := by
  have hstage := executeSaga_stage saga env request
    (show True → .cancelCaller ∉ schedule from fun _ => hcaller)
  obtain ⟨steps, crewSchedule, error, hcalm, hrun, hraised, hcrewRun, hdone,
    hresult⟩ := stage_of_failed hstage hend hfailed
  generalize (executeSaga saga env request schedule).state = engine at *
  generalize (executeSaga saga env request schedule).trace = trace at *
  obtain ⟨layers, hlayers⟩ := hvalid.layers
  have hinv := @orchestrate_invariant _ V E _ saga env _ hlayers request steps
  rw [hrun] at hinv
  have hreturned : ∀ step, step ∈ engine.orchestration.ctx.doneSteps ↔
      ActionReturned step trace := by
    intro step
    rw [done_iff_returned hinv hlayers step (hports.successUnobstructed step)]
    have hthreads := (@orchestrate_no_threads _ V E _ saga env hcpu request steps).2
    rw [hrun] at hthreads
    constructor
    · intro h
      obtain ⟨attempt, value, hmem⟩ := h
      exact ⟨attempt, value, Or.inl (mem_stepEvents.mp hmem)⟩
    · intro h
      obtain ⟨attempt, value, hmem | hmem⟩ := h
      · exact ⟨attempt, value, mem_stepEvents.mpr hmem⟩
      · exact absurd (mem_stepEvents.mpr hmem) (hthreads step attempt value)
  have hsmooth := @smooth_of_returns _ V E _ saga env hports hreturns
    engine.orchestration.ctx.doneSteps
  have hcount : ∀ step, invocations step trace =
      if step ∈ engine.orchestration.ctx.doneSteps ∧ saga.Compensable step
      then 1 else 0 := by
    apply invocations_of_crew (hcalm trivial).2 hcrewRun hdone
    · rw [hinv.topology]
      exact Orchestration.flatten_nodup hlayers
    · rw [hinv.topology]
      exact doneSteps_covered hinv
    · intro _ other _ stepDef hother
      unfold compensationMaxRetries
      cases hcompensationRetry : stepDef.compensationRetry with
      | none => decide
      | some count =>
        exact hretry other stepDef (Option.filter_eq_some_iff.mp hother).1
          count hcompensationRetry
    · exact hsmooth
  constructor
  · intro step hcompensable haction
    rw [hcount, if_pos ⟨(hreturned step).mpr haction, hcompensable⟩]
  · intro step hneither
    rw [hcount, if_neg]
    exact fun h => hneither ⟨h.2, (hreturned step).mp h.1⟩
  · intro step hinvoked
    rw [hcount] at hinvoked
    split at hinvoked
    · next h =>
        have hstatus := SagaContext.mem_doneSteps.mp h.1
        obtain ⟨stepDef, hget⟩ := (Orchestration.mem_flatten_iff hlayers).mp
          (doneSteps_covered hinv step h.1)
        refine ⟨stepOutcome env engine.orchestration.ctx false (some error) step, ?_, ?_⟩
        · rw [hresult]
          show (saga.steps.mapValues _).get? step = _
          rw [Dict.get?_mapValues, hget]
          rfl
        · show (engine.orchestration.ctx.stepStatuses.get? step).getD _ = _
          rw [show engine.orchestration.ctx.stepStatuses.get? step = some .done from hstatus]
          rfl
    · omega

/-- The second step of a chain raises, and the first is compensated. -/
theorem execute_compensates_returned_chain :
    ∃ result, (executeSaga chainSaga (Environment.failing 1 () ())
        ⟨"1", Dict.empty, .strictSequential⟩
        [.task 0, .task 0, .main 0, .task 1, .task 1, .main 0,
          .main 0]).state.phase = .finished (.returned result) ∧
      CompensatesReturned chainSaga result (executeSaga chainSaga (Environment.failing 1 () ())
          ⟨"1", Dict.empty, .strictSequential⟩
          [.task 0, .task 0, .main 0, .task 1, .task 1, .main 0, .main 0]).trace := by
  refine ⟨_, rfl, ?_⟩
  apply execute_compensates_returned chainSaga_valid chainSaga_noCpuBound
  · exact ⟨by simp [Environment.failing, Environment.obliging],
      by simp [Environment.failing, Environment.obliging],
      by simp [Environment.failing, Environment.obliging]⟩
  · intro step stepDef hget count hcount
    have hitem : (step, stepDef) ∈ chainSaga.steps.items :=
      Dict.get?_eq_some_iff.mp hget
    have hitems : chainSaga.steps.items = [(0, .reversible 0 []), (1, .reversible 1 [0])] := rfl
    rw [hitems] at hitem
    rcases mem_cons.mp hitem with hfirst | hrest
    · cases hfirst
      cases hcount
    · cases mem_singleton.mp hrest
      cases hcount
  · exact fun _ _ => ⟨(), rfl⟩
  · simp
  · rfl
  · rfl

end Completeness

end PyFly.Saga
