import PyFly.EngineCompensation

/-!
# The context a run leaves behind

The orchestrator is the only writer of the saga context.  It writes results
and statuses of the steps of its saga, and never touches the dictionaries
about compensations; the compensator writes nothing at all.
-/

namespace PyFly.Saga

open Library Transactional

variable {ι V E : Type}

theorem StepTask.Transition.not_compensated {env : Environment ι V E}
    {stepDef : StepDefinition ι} {available : Bool}
    {task next : StepTask E} {effects : List (StepEffect ι V E)}
    (h : task.Transition env stepDef available next effects) :
    .statusSet .compensated ∉ effects := by
  have hinterrupted : ∀ attempt, (interrupted stepDef attempt : StepEffect ι V E) ≠
        .statusSet .compensated := by
    intro attempt
    unfold interrupted
    split
    · simp
    · simp
  have hcause : ∀ {attempt cause}, Fails env stepDef task attempt cause →
      .statusSet .compensated ∉ cause := by
    intro attempt cause hfails
    cases hfails with
    | raised error hphase => simp
    | interrupted hphase => simpa using (hinterrupted attempt).symm
    | obstructed hphase hport => simp
  cases h with
  | backedOff attempt cause hfails hretry =>
    simpa using hcause hfails
  | gaveUp attempt error cause hfails hlast =>
    simpa using hcause hfails
  | gaveUpLoudly attempt error cause hfails hlast hevents =>
    simpa using hcause hfails
  | cancelled trace hphase hcancel htrace =>
    rcases htrace with hnil | ⟨attempt, hone⟩
    · simp [hnil]
    · simpa [hone] using (hinterrupted attempt).symm
  | _ => simp

section Forward

structure SagaContext.Forward (saga : SagaDefinition ι)
    [DecidableEq ι] (request : SagaRequest) (ctx : SagaContext ι V E) :
    Prop where
  correlationId : ctx.correlationId = request.correlationId
  headers : ctx.headers = request.headers
  results : ∀ step, step ∉ saga.stepIds → ctx.stepResults.get? step = none
  statuses : ∀ step, ctx.status? step ≠ some .compensated
  compensationResults : ctx.compensationResults = Dict.empty
  compensationErrors : ctx.compensationErrors = Dict.empty

variable [LinearOrder ι] {saga : SagaDefinition ι} {env : Environment ι V E}
variable {request : SagaRequest}

theorem SagaContext.Forward.record {ctx : SagaContext ι V E}
    (h : ctx.Forward saga request) {step : ι} (hstep : step ∈ saga.stepIds)
    {effect : StepEffect ι V E} (heffect : effect ≠ .statusSet .compensated) :
    (ctx.record step effect).Forward saga request := by
  cases effect with
  | resultSet value =>
    refine ⟨h.correlationId, h.headers, ?_, h.statuses,
      h.compensationResults, h.compensationErrors⟩
    intro other hother
    have hne : other ≠ step := fun hsame => hother (hsame ▸ hstep)
    exact (Dict.get?_set_of_ne hne value).trans (h.results other hother)
  | statusSet status =>
    refine ⟨h.correlationId, h.headers, h.results, ?_,
      h.compensationResults, h.compensationErrors⟩
    intro other hother
    by_cases hsame : other = step
    · rw [hsame] at hother
      have hself : (ctx.record step (.statusSet status)).status? step =
          some status := Dict.get?_set_self _ _ _
      rw [hself] at hother
      exact heffect (by rw [Option.some.inj hother])
    · have hframe : (ctx.record step (.statusSet status)).status? other =
          ctx.status? other := Dict.get?_set_of_ne hsame status
      rw [hframe] at hother
      exact h.statuses other hother
  | attemptsSet attempts =>
    exact ⟨h.correlationId, h.headers, h.results, h.statuses,
      h.compensationResults, h.compensationErrors⟩
  | latencySet latencyMs =>
    exact ⟨h.correlationId, h.headers, h.results, h.statuses,
      h.compensationResults, h.compensationErrors⟩
  | _ => exact h

variable {config : Orchestration ι V E}

theorem Orchestration.absorb_forward {step : ι} (hstep : step ∈ saga.stepIds)
    {effects : List (StepEffect ι V E)}
    (heffects : .statusSet .compensated ∉ effects)
    (h : config.ctx.Forward saga request) :
    (effects.foldl (absorb step) config).ctx.Forward saga request := by
  induction effects generalizing config with
  | nil => exact h
  | cons effect rest ih =>
    rw [List.foldl_cons]
    apply ih (fun hmem => heffects (List.mem_cons_of_mem effect hmem))
    have hne : effect ≠ .statusSet .compensated := by
      intro hsame
      exact heffects (hsame ▸ List.mem_cons_self)
    cases effect with
    | resultSet value => exact h.record hstep hne
    | statusSet status => exact h.record hstep hne
    | attemptsSet attempts => exact h.record hstep hne
    | latencySet latencyMs => exact h.record hstep hne
    | _ => exact h

theorem Orchestration.openLayer_ctx (position : ℕ) (config : Orchestration ι V E) :
    (openLayer saga position config).ctx = config.ctx := by
  unfold openLayer
  cases config.ctx.topologyLayers[position]? with
  | none => rfl
  | some layer => rfl

theorem Orchestration.resumeMain_ctx {choice : ℕ} {next : Orchestration ι V E}
    (h : config.resumeMain saga choice = some next) :
    next.ctx = config.ctx := by
  rcases resumeMain_cases h with ⟨error, pending, _, _, _, hend⟩ |
    ⟨_, _, hnext⟩ | ⟨error, _, _, hnext⟩
  · rcases hend with ⟨_, hnext⟩ | ⟨_, hnext⟩
    · rw [hnext]
    · rw [hnext]
  · rw [hnext, openLayer_ctx]
  · rw [hnext]

theorem Orchestration.forward_step {next : Orchestration ι V E}
    {pick : OrchestratorPick ι} {events : List (StepEvent ι V E)}
    (hstep : config.step saga env pick = some (next, events))
    (h : config.ctx.Forward saga request) :
    next.ctx.Forward saga request := by
  cases pick with
  | main choice =>
    obtain ⟨moved, hmoved, heq⟩ := Option.map_eq_some_iff.mp hstep
    rw [← (Prod.mk.inj heq).1, resumeMain_ctx hmoved]
    exact h
  | task step =>
    obtain ⟨stepDef, task, effects, hget, htransition, _, hnext⟩ :=
      resumeTask_cases hstep
    rw [hnext]
    exact absorb_forward (Dict.mem_keys_of_get? hget) htransition.not_compensated h
  | thread index =>
    change config.finishThread env index = some (next, events) at hstep
    unfold finishThread at hstep
    cases hthread : config.threads[index]? with
    | none =>
      rw [hthread] at hstep
      cases hstep
    | some thread =>
      rw [hthread] at hstep
      have hnext : { config with
          threads := config.threads.eraseIdx index } = next :=
        congrArg Prod.fst (Option.some.inj hstep)
      rw [← hnext]
      exact h
  | cancelCaller =>
    obtain ⟨moved, hmoved, heq⟩ := Option.map_eq_some_iff.mp hstep
    rw [← (Prod.mk.inj heq).1, (cancelCaller_cases hmoved).2]
    exact h

theorem Orchestration.start_forward (saga : SagaDefinition ι)
    (env : Environment ι V E) (request : SagaRequest) :
    (start saga env (request.context saga)).ctx.Forward saga request := by
  have hempty : ∀ step, (request.context saga : SagaContext ι V E).status? step ≠
        some .compensated := by
    intro step h
    cases h
  unfold start
  cases computeLayers saga.deps with
  | error error =>
    exact ⟨rfl, rfl, fun _ _ => rfl, hempty, rfl, rfl⟩
  | ok layers =>
    dsimp only
    rw [openLayer_ctx]
    exact ⟨rfl, rfl, fun _ _ => rfl, hempty, rfl, rfl⟩

theorem orchestrate_forward (saga : SagaDefinition ι)
    (env : Environment ι V E) (request : SagaRequest)
    (schedule : List (OrchestratorPick ι)) :
    (orchestrate saga env request schedule).state.ctx.Forward saga request :=
  Machine.run_invariant
    (fun (config : Orchestration ι V E) (_ : List (StepEvent ι V E)) =>
      config.ctx.Forward saga request)
    (Orchestration.start_forward saga env request)
    (fun _ _ _ _ _ h hstep => Orchestration.forward_step hstep h) schedule

theorem returned_of_stage {calm : Prop} {engine : Engine ι V E}
    {trace : List (EngineEvent ι V E)} {result : SagaResult ι V E}
    (hstage : engine.Stage saga env request calm trace)
    (hphase : engine.phase = .finished (.returned result)) :
    ∃ schedule error, orchestrate saga env request schedule =
        ⟨engine.orchestration, stepEvents trace⟩ ∧
      result = buildResult saga env engine.orchestration.ctx result.success
        error := by
  cases hstage with
  | unstarted hearly horchestration hcrew hparts =>
    rw [hphase] at hearly
    simp at hearly
  | executing schedule hcalm hrun hexecuting hmain hcrew hsignals hentries =>
    rw [hphase] at hexecuting
    cases hexecuting
  | concluded schedule hcalm hrun verdict hverdict hpast hcrew hsignals hentries =>
      rw [hphase] at hpast
      have hresult := hpast.returned
      refine ⟨schedule, verdict.error, hrun, ?_⟩
      have hsuccess : result.success = verdict.success := by rw [hresult]; rfl
      rw [hsuccess]
      exact hresult
  | compensating schedule crewSchedule hcalm hrun error hraised hcrewRun hentries hend =>
      rcases hend with ⟨hcompensating, _⟩ | ⟨outcome, hdone, hpast⟩
      · rw [hphase] at hcompensating
        cases hcompensating
      · rw [hphase] at hpast
        have hresult := hpast.returned
        refine ⟨schedule, (Engine.afterCompensation error outcome).error, hrun, ?_⟩
        have hsuccess : result.success = (Engine.afterCompensation error outcome).success := by
          rw [hresult]
          rfl
        rw [hsuccess]
        exact hresult

end Forward

end PyFly.Saga
