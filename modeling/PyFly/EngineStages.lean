import PyFly.SagaEngine
import PyFly.OrchestratorContract

/-!
# The stages of an engine run

A run of the engine contains a run of the orchestrator and, once that has
raised, a run of the compensator over the steps which are `DONE` by then.
Everything proved about the two carries over to the engine through this
decomposition.
-/

namespace PyFly.Saga

open Library Transactional List

variable {ι V E : Type}

/-! ## The parts of a trace -/

def EngineEvent.step? : EngineEvent ι V E → Option (StepEvent ι V E)
  | .step event => some event
  | _ => none

def EngineEvent.signal? : EngineEvent ι V E → Option (CompensationSignal ι V E)
  | .compensation signal => some signal
  | _ => none

def EngineEvent.entered? : EngineEvent ι V E → Option (List ι)
  | .compensationEntered completed => some completed
  | _ => none

def stepEvents (trace : List (EngineEvent ι V E)) : List (StepEvent ι V E) :=
  trace.filterMap EngineEvent.step?

def compensationSignals (trace : List (EngineEvent ι V E)) : List (CompensationSignal ι V E) :=
  trace.filterMap EngineEvent.signal?

def compensationEntries (trace : List (EngineEvent ι V E)) : List (List ι) :=
  trace.filterMap EngineEvent.entered?

section Projections

variable (first second : List (EngineEvent ι V E))

@[simp] theorem stepEvents_append :
    stepEvents (first ++ second) = stepEvents first ++ stepEvents second :=
  filterMap_append

@[simp] theorem compensationSignals_append :
    compensationSignals (first ++ second) =
      compensationSignals first ++ compensationSignals second :=
  filterMap_append

@[simp] theorem compensationEntries_append :
    compensationEntries (first ++ second) =
      compensationEntries first ++ compensationEntries second :=
  filterMap_append

@[simp] theorem stepEvents_map_step (events : List (StepEvent ι V E)) :
    stepEvents (events.map EngineEvent.step) = events := by
  unfold stepEvents
  rw [filterMap_map]
  exact filterMap_some

@[simp] theorem compensationSignals_map_step
    (events : List (StepEvent ι V E)) :
    compensationSignals (events.map EngineEvent.step) = [] := by
  simp [compensationSignals, EngineEvent.signal?, filterMap_map, Function.comp_def]

@[simp] theorem compensationEntries_map_step
    (events : List (StepEvent ι V E)) :
    compensationEntries (events.map EngineEvent.step) = [] := by
  simp [compensationEntries, EngineEvent.entered?, filterMap_map, Function.comp_def]

@[simp] theorem compensationSignals_map_compensation
    (signals : List (CompensationSignal ι V E)) :
    compensationSignals (signals.map EngineEvent.compensation) =
      signals := by
  unfold compensationSignals
  rw [filterMap_map]
  exact filterMap_some

@[simp] theorem stepEvents_map_compensation
    (signals : List (CompensationSignal ι V E)) :
    stepEvents (signals.map EngineEvent.compensation) = [] := by
  simp [stepEvents, EngineEvent.step?, filterMap_map, Function.comp_def]

@[simp] theorem compensationEntries_map_compensation
    (signals : List (CompensationSignal ι V E)) :
    compensationEntries (signals.map EngineEvent.compensation) = [] := by
  simp [compensationEntries, EngineEvent.entered?, filterMap_map, Function.comp_def]

end Projections

theorem mem_compensationEntries {trace : List (EngineEvent ι V E)} {completed : List ι} :
    completed ∈ compensationEntries trace ↔ .compensationEntered completed ∈ trace := by
  unfold compensationEntries
  rw [mem_filterMap]
  constructor
  · intro h
    obtain ⟨event, hmem, hentered⟩ := h
    cases event with
    | compensationEntered other =>
      have hsame : other = completed := Option.some.inj hentered
      rw [← hsame]
      exact hmem
    | _ => cases hentered
  · intro h
    exact ⟨_, h, rfl⟩

/-- The events in which `execute` only calls its own ports. -/
structure PortEvents (events : List (EngineEvent ι V E)) : Prop where
  steps : stepEvents events = []
  signals : compensationSignals events = []
  entries : compensationEntries events = []

theorem PortEvents.nil : PortEvents ([] : List (EngineEvent ι V E)) :=
  ⟨rfl, rfl, rfl⟩

section

variable {trace events : List (EngineEvent ι V E)}

theorem PortEvents.stepEvents_append (h : PortEvents events) :
    stepEvents (trace ++ events) = stepEvents trace := by
  rw [PyFly.Saga.stepEvents_append, h.steps, append_nil]

theorem PortEvents.signals_append (h : PortEvents events) :
    compensationSignals (trace ++ events) = compensationSignals trace := by
  rw [compensationSignals_append, h.signals, append_nil]

theorem PortEvents.entries_append (h : PortEvents events) :
    compensationEntries (trace ++ events) = compensationEntries trace := by
  rw [compensationEntries_append, h.entries, append_nil]

theorem PortEvents.append (hfirst : PortEvents trace)
    (hsecond : PortEvents events) : PortEvents (trace ++ events) where
  steps := by rw [hsecond.stepEvents_append, hfirst.steps]
  signals := by rw [hsecond.signals_append, hfirst.signals]
  entries := by rw [hsecond.entries_append, hfirst.entries]

end

section Frozen

variable [LinearOrder ι] {saga : SagaDefinition ι} {env : Environment ι V E}

def Orchestration.Idle (config : Orchestration ι V E) : Prop :=
  ∀ step, (config.tasks step).phase = .absent ∨ (config.tasks step).phase.isEnded = true

theorem Orchestration.Idle.resumeTask {config : Orchestration ι V E}
    (hidle : config.Idle) (step : ι) :
    config.resumeTask saga env step = none := by
  unfold Orchestration.resumeTask
  cases saga.steps.get? step with
  | none => rfl
  | some stepDef =>
    have hresume : (config.tasks step).resume env stepDef config.available = none := by
      unfold StepTask.resume
      rcases hidle step with habsent | hended
      · rw [habsent]
      · cases hphase : (config.tasks step).phase with
        | ended outcome => rfl
        | _ => simp [hphase, TaskPhase.isEnded] at hended
    dsimp only
    rw [hresume]

def orchestrate (saga : SagaDefinition ι) (env : Environment ι V E)
    (request : SagaRequest) (schedule : List (OrchestratorPick ι)) :
    Execution (Orchestration ι V E) (StepEvent ι V E) :=
  (orchestrator saga env).run (Orchestration.start saga env (request.context saga)) schedule

theorem orchestrate_invariant {layers : List (List ι)}
    (hlayers : computeLayers saga.deps = .ok layers) (request : SagaRequest)
    (schedule : List (OrchestratorPick ι)) :
    Orchestration.Invariant saga env layers (orchestrate saga env request schedule).state
      (orchestrate saga env request schedule).trace :=
  orchestrator_invariant hlayers env rfl schedule

theorem start_of_error {error : TopologyError} (herror : computeLayers saga.deps = .error error)
    (ctx : SagaContext ι V E) :
    (Orchestration.start saga env ctx).main = .raised (env.topologyError error) ∧
      (Orchestration.start saga env ctx).threads = [] ∧
      (Orchestration.start saga env ctx).Idle := by
  unfold Orchestration.start
  rw [herror]
  exact ⟨rfl, rfl, fun _ => Or.inl rfl⟩

theorem orchestrate_of_error {error : TopologyError}
    (herror : computeLayers saga.deps = .error error) (request : SagaRequest)
    (schedule : List (OrchestratorPick ι)) :
    orchestrate saga env request schedule =
      ⟨Orchestration.start saga env (request.context saga), []⟩ := by
  obtain ⟨hmain, hthreads, hidle⟩ := @start_of_error _ V E _ saga env _
    herror (request.context saga)
  have hstep : ∀ pick, (orchestrator saga env).step
      (Orchestration.start saga env (request.context saga)) pick = none := by
    intro pick
    cases pick with
    | main choice =>
      show (Orchestration.resumeMain saga choice _).map _ = none
      unfold Orchestration.resumeMain
      rw [hmain]
      rfl
    | task step => exact hidle.resumeTask step
    | thread index =>
      show Orchestration.finishThread env index _ = none
      unfold Orchestration.finishThread
      rw [hthreads]
      rfl
    | cancelCaller =>
      show (Orchestration.cancelCaller _).map _ = none
      unfold Orchestration.cancelCaller
      rw [hmain]
      rfl
  unfold orchestrate Machine.run
  induction schedule with
  | nil => rfl
  | cons pick rest ih =>
    rw [Machine.runFrom_cons, Machine.advance_of_disabled (hstep pick), ih]

theorem orchestrate_idle (request : SagaRequest) (schedule : List (OrchestratorPick ι))
    (hsettled : (orchestrate saga env request schedule).state.Settled) :
    (orchestrate saga env request schedule).state.Idle := by
  cases hlayers : computeLayers saga.deps with
  | error error =>
    rw [orchestrate_of_error hlayers]
    exact (start_of_error hlayers _).2.2
  | ok layers =>
    have hinv := @orchestrate_invariant _ V E _ saga env _ hlayers request schedule
    rcases hsettled with hreturned | ⟨error, hraised⟩
    · intro step
      by_cases hmem : step ∈ layers.flatten
      · right
        have hlt := layerIndex_lt_length hmem
        rw [← hinv.leftLoop hreturned] at hlt
        rw [hinv.earlier step hmem hlt]
        rfl
      · exact Or.inl (hinv.stranger step hmem).1
    · exact hinv.raised_settled hlayers hraised

theorem frozen_step {config next : Orchestration ι V E}
    (hidle : config.Idle) (hsettled : config.Settled)
    {pick : OrchestratorPick ι} {events : List (StepEvent ι V E)}
    (h : config.step saga env pick = some (next, events)) :
    next.ctx = config.ctx ∧ next.main = config.main := by
  cases pick with
  | main choice =>
    obtain ⟨moved, hmoved, _⟩ := Option.map_eq_some_iff.mp h
    unfold Orchestration.resumeMain at hmoved
    rcases hsettled with hreturned | ⟨error, hraised⟩
    · rw [hreturned] at hmoved
      cases hmoved
    · rw [hraised] at hmoved
      cases hmoved
  | task step =>
    change config.resumeTask saga env step = some (next, events) at h
    rw [hidle.resumeTask] at h
    cases h
  | thread index =>
    change config.finishThread env index = some (next, events) at h
    unfold Orchestration.finishThread at h
    cases hthread : config.threads[index]? with
    | none =>
      rw [hthread] at h
      cases h
    | some thread =>
      rw [hthread] at h
      have hnext : { config with
          threads := config.threads.eraseIdx index } = next :=
        congrArg Prod.fst (Option.some.inj h)
      rw [← hnext]
      exact ⟨rfl, rfl⟩
  | cancelCaller =>
    obtain ⟨moved, hmoved, _⟩ := Option.map_eq_some_iff.mp h
    unfold Orchestration.cancelCaller at hmoved
    rcases hsettled with hreturned | ⟨error, hraised⟩
    · rw [hreturned] at hmoved
      cases hmoved
    · rw [hraised] at hmoved
      cases hmoved

end Frozen

section Stages

variable [LinearOrder ι]

/-- The `finally` clause has been entered with a verdict. -/
inductive EnginePhase.Past (saga : SagaDefinition ι)
    (env : Environment ι V E) (verdict : Verdict E)
    (ctx : SagaContext ι V E) : EnginePhase ι V E → Prop
  | completing : Past saga env verdict ctx (.completing verdict)
  | marking : Past saga env verdict ctx (.marking verdict)
  | concluded : Past saga env verdict ctx (.finished (Engine.conclude saga env verdict ctx))
  | raised (error : E) : Past saga env verdict ctx (.finished (.raised error))
  | cancelled : Past saga env verdict ctx (.finished .cancelled)

inductive Engine.Stage (saga : SagaDefinition ι) (env : Environment ι V E)
    (request : SagaRequest) (calm : Prop) (engine : Engine ι V E)
    (trace : List (EngineEvent ι V E)) : Prop
  | unstarted (hphase : engine.phase = .starting ∨ engine.phase = .persisting ∨
        (∃ error, engine.phase = .finished (.raised error)) ∨
        engine.phase = .finished .cancelled)
      (horchestration : engine.orchestration =
        (Engine.blank (request.context saga)).orchestration)
      (hcrew : engine.crew = idleCrew)
      (hparts : PortEvents trace)
  | executing (schedule : List (OrchestratorPick ι)) (hcalm : calm → .cancelCaller ∉ schedule)
      (hrun : orchestrate saga env request schedule = ⟨engine.orchestration, stepEvents trace⟩)
      (hphase : engine.phase = .executing)
      (hmain : engine.orchestration.main = .waiting ∨
        ∃ error, engine.orchestration.main = .draining error)
      (hcrew : engine.crew = idleCrew)
      (hsignals : compensationSignals trace = [])
      (hentries : compensationEntries trace = [])
  | concluded (schedule : List (OrchestratorPick ι)) (hcalm : calm → .cancelCaller ∉ schedule)
      (hrun : orchestrate saga env request schedule = ⟨engine.orchestration, stepEvents trace⟩)
      (verdict : Verdict E)
      (hverdict : (engine.orchestration.main = .returned ∧ verdict = ⟨true, none, false⟩) ∨
        (engine.orchestration.main = .cancelled ∧ verdict = ⟨false, none, true⟩))
      (hpast : engine.phase.Past saga env verdict engine.orchestration.ctx)
      (hcrew : engine.crew = idleCrew)
      (hsignals : compensationSignals trace = [])
      (hentries : compensationEntries trace = [])
  | compensating (schedule : List (OrchestratorPick ι)) (crewSchedule : List CrewPick)
      (hcalm : calm → .cancelCaller ∉ schedule ∧ .cancelCaller ∉ crewSchedule)
      (hrun : orchestrate saga env request schedule = ⟨engine.orchestration, stepEvents trace⟩)
      (error : E) (hraised : engine.orchestration.main = .raised error)
      (hcrewRun : compensation env saga request.policy engine.orchestration.ctx.doneSteps
          engine.orchestration.ctx.topologyLayers crewSchedule =
        ⟨engine.crew, compensationSignals trace⟩)
      (hentries : compensationEntries trace = [engine.orchestration.ctx.doneSteps])
      (hend : (engine.phase = .compensating error ∧ engine.crew.main.isDone = false) ∨
        ∃ result, engine.crew.main = .done result ∧
          engine.phase.Past saga env (Engine.afterCompensation error result)
            engine.orchestration.ctx)

end Stages

section Finally

variable [LinearOrder ι] {saga : SagaDefinition ι} {env : Environment ι V E}

structure Engine.Ported (engine next : Engine ι V E)
    (events : List (EngineEvent ι V E)) : Prop where
  orchestration : next.orchestration = engine.orchestration
  crew : next.crew = engine.crew
  parts : PortEvents events

theorem Engine.enterMarking_spec (verdict : Verdict E) (engine : Engine ι V E) :
    engine.Ported (Engine.enterMarking saga env verdict engine).1
        (Engine.enterMarking saga env verdict engine).2 ∧
      (Engine.enterMarking saga env verdict engine).1.phase.Past saga env
        verdict engine.orchestration.ctx := by
  unfold Engine.enterMarking
  cases env.persistence with
  | none => exact ⟨⟨rfl, rfl, .nil⟩, .concluded⟩
  | some port => exact ⟨⟨rfl, rfl, ⟨rfl, rfl, rfl⟩⟩, .marking⟩

theorem Engine.enterCompleting_spec (verdict : Verdict E) (engine : Engine ι V E) :
    engine.Ported (Engine.enterCompleting saga env verdict engine).1
        (Engine.enterCompleting saga env verdict engine).2 ∧
      (Engine.enterCompleting saga env verdict engine).1.phase.Past saga env
        verdict engine.orchestration.ctx := by
  unfold Engine.enterCompleting
  cases env.events with
  | none => exact Engine.enterMarking_spec verdict engine
  | some port => exact ⟨⟨rfl, rfl, ⟨rfl, rfl, rfl⟩⟩, .completing⟩

theorem Engine.resumePast {policy : CompensationPolicy}
    {verdict : Verdict E} {engine next : Engine ι V E}
    {events : List (EngineEvent ι V E)}
    (hpast : engine.phase.Past saga env verdict engine.orchestration.ctx)
    {cancelled : Bool} {choice : ℕ}
    (h : engine.resumeMain saga env policy cancelled choice = some (next, events)) :
    engine.Ported next events ∧ next.phase.Past saga env verdict engine.orchestration.ctx := by
  unfold Engine.resumeMain at h
  generalize hphase : engine.phase = phase at h hpast
  cases hpast with
  | completing =>
    obtain ⟨port, hport, hnext⟩ := Option.map_eq_some_iff.mp h
    have hmarking :=
      @Engine.enterMarking_spec _ _ _ _ saga env verdict engine
    cases hreply : portReply port (.onCompleted verdict.success) cancelled with
    | returns value =>
      rw [hreply] at hnext
      have hsame : Engine.enterMarking saga env verdict engine = (next, events) := hnext
      rwa [hsame] at hmarking
    | raises error =>
      rw [hreply] at hnext
      cases hnext
      exact ⟨⟨rfl, rfl, .nil⟩, .raised error⟩
    | propagates =>
      rw [hreply] at hnext
      cases hnext
      exact ⟨⟨rfl, rfl, .nil⟩, .cancelled⟩
  | marking =>
    obtain ⟨port, hport, hnext⟩ := Option.map_eq_some_iff.mp h
    cases hreply : markReply port verdict.success cancelled with
    | returns value =>
      rw [hreply] at hnext
      cases hnext
      exact ⟨⟨rfl, rfl, .nil⟩, .concluded⟩
    | raises error =>
      rw [hreply] at hnext
      cases hnext
      exact ⟨⟨rfl, rfl, .nil⟩, .raised error⟩
    | propagates =>
      rw [hreply] at hnext
      cases hnext
      exact ⟨⟨rfl, rfl, .nil⟩, .cancelled⟩
  | concluded => cases h
  | raised error => cases h
  | cancelled => cases h

end Finally

section Decomposition

variable [LinearOrder ι] {saga : SagaDefinition ι} {env : Environment ι V E}
variable {request : SagaRequest} {calm : Prop}
variable {engine next : Engine ι V E}
variable {trace events : List (EngineEvent ι V E)}

theorem Engine.stage_settleCompensation
    {schedule : List (OrchestratorPick ι)} {crewSchedule : List CrewPick}
    (hcalm : calm → .cancelCaller ∉ schedule ∧ .cancelCaller ∉ crewSchedule)
    (hrun : orchestrate saga env request schedule = ⟨engine.orchestration, stepEvents trace⟩)
    {error : E} (hraised : engine.orchestration.main = .raised error)
    (hcrewRun : compensation env saga request.policy engine.orchestration.ctx.doneSteps
        engine.orchestration.ctx.topologyLayers crewSchedule =
      ⟨engine.crew, compensationSignals trace⟩)
    (hentries : compensationEntries trace = [engine.orchestration.ctx.doneSteps])
    (hphase : engine.phase = .compensating error) :
    (settleCompensation saga env error engine).1.Stage saga env request calm
      (trace ++ (settleCompensation saga env error engine).2) := by
  unfold settleCompensation
  cases hmain : engine.crew.main with
  | await query resume =>
    dsimp only
    rw [append_nil]
    refine .compensating schedule crewSchedule hcalm hrun error hraised
      hcrewRun hentries (Or.inl ⟨hphase, ?_⟩)
    rw [hmain]
    rfl
  | done result =>
    obtain ⟨hported, hpast⟩ := @enterCompleting_spec _ _ _ _ saga env
      (afterCompensation error result) engine
    dsimp only
    refine .compensating schedule crewSchedule hcalm ?_ error ?_ ?_ ?_ (Or.inr ⟨result, ?_, ?_⟩)
    · rw [hported.parts.stepEvents_append, hported.orchestration]
      exact hrun
    · rw [hported.orchestration]
      exact hraised
    · rw [hported.parts.signals_append, hported.orchestration, hported.crew]
      exact hcrewRun
    · rw [hported.parts.entries_append, hported.orchestration]
      exact hentries
    · rw [hported.crew]
      exact hmain
    · rw [hported.orchestration]
      exact hpast

theorem Engine.stage_enterCompensating {schedule : List (OrchestratorPick ι)}
    (hcalm : calm → .cancelCaller ∉ schedule)
    (hrun : orchestrate saga env request schedule = ⟨engine.orchestration, stepEvents trace⟩)
    {error : E} (hraised : engine.orchestration.main = .raised error)
    (hsignals : compensationSignals trace = [])
    (hentries : compensationEntries trace = []) :
    (enterCompensating saga env request.policy error engine).1.Stage saga env request calm
      (trace ++ (enterCompensating saga env request.policy error engine).2) := by
  unfold enterCompensating
  have hsplit : ∀ (signals : List (CompensationSignal ι V E)) (rest : List (EngineEvent ι V E)),
      trace ++ (.compensationEntered engine.orchestration.ctx.doneSteps ::
        (signals.map .compensation ++ rest)) =
      (trace ++ .compensationEntered engine.orchestration.ctx.doneSteps ::
        signals.map .compensation) ++ rest := by
    intro signals rest
    simp
  dsimp only
  rw [hsplit]
  have hcalm' : calm → .cancelCaller ∉ schedule ∧
      CrewPick.cancelCaller ∉ ([] : List CrewPick) :=
    fun hcalmly => ⟨hcalm hcalmly, by simp⟩
  refine stage_settleCompensation hcalm' ?_ hraised ?_ ?_ rfl
  · have hentered : stepEvents (.compensationEntered engine.orchestration.ctx.doneSteps ::
        (env.compensationRules.start (Compensating.compensate env saga request.policy
            engine.orchestration.ctx.doneSteps
            engine.orchestration.ctx.topologyLayers)).2.map
          (EngineEvent.compensation : _ → EngineEvent ι V E)) = [] :=
      stepEvents_map_compensation _
    rw [stepEvents_append, hentered, append_nil]
    exact hrun
  · have hentered : compensationSignals (.compensationEntered
        engine.orchestration.ctx.doneSteps ::
        (env.compensationRules.start (Compensating.compensate env saga request.policy
            engine.orchestration.ctx.doneSteps
            engine.orchestration.ctx.topologyLayers)).2.map
          (EngineEvent.compensation : _ → EngineEvent ι V E)) = _ :=
      compensationSignals_map_compensation _
    rw [compensationSignals_append, hentered, hsignals]
    rfl
  · have hentered : compensationEntries (.compensationEntered
        engine.orchestration.ctx.doneSteps ::
        (env.compensationRules.start (Compensating.compensate env saga request.policy
            engine.orchestration.ctx.doneSteps
            engine.orchestration.ctx.topologyLayers)).2.map
          (EngineEvent.compensation : _ → EngineEvent ι V E)) =
        engine.orchestration.ctx.doneSteps :: _ := rfl
    rw [compensationEntries_append, hentries, hentered]
    have hnone := compensationEntries_map_compensation (env.compensationRules.start
        (Compensating.compensate env saga request.policy engine.orchestration.ctx.doneSteps
          engine.orchestration.ctx.topologyLayers)).2
    exact congrArg (_ :: ·) hnone

theorem Engine.stage_settleExecution {schedule : List (OrchestratorPick ι)}
    (hcalm : calm → .cancelCaller ∉ schedule)
    (hrun : orchestrate saga env request schedule = ⟨engine.orchestration, stepEvents trace⟩)
    (hphase : engine.phase = .executing) (hcrew : engine.crew = idleCrew)
    (hsignals : compensationSignals trace = [])
    (hentries : compensationEntries trace = []) :
    (settleExecution saga env request.policy engine).1.Stage saga env request
      calm (trace ++ (settleExecution saga env request.policy engine).2) := by
  have hconclude : ∀ verdict : Verdict E,
      (engine.orchestration.main = .returned ∧ verdict = ⟨true, none, false⟩) ∨
        (engine.orchestration.main = .cancelled ∧ verdict = ⟨false, none, true⟩) →
      (enterCompleting saga env verdict engine).1.Stage saga env request calm
        (trace ++ (enterCompleting saga env verdict engine).2) := by
    intro verdict hverdict
    obtain ⟨hported, hpast⟩ := @enterCompleting_spec _ _ _ _ saga env verdict engine
    refine .concluded schedule hcalm ?_ verdict ?_ ?_ ?_ ?_ ?_
    · rw [hported.parts.stepEvents_append, hported.orchestration]
      exact hrun
    · rw [hported.orchestration]
      exact hverdict
    · rw [hported.orchestration]
      exact hpast
    · rw [hported.crew]
      exact hcrew
    · rw [hported.parts.signals_append]
      exact hsignals
    · rw [hported.parts.entries_append]
      exact hentries
  unfold settleExecution
  cases hmain : engine.orchestration.main with
  | waiting =>
    dsimp only
    rw [append_nil]
    exact .executing schedule hcalm hrun hphase (Or.inl hmain) hcrew hsignals hentries
  | draining error =>
    dsimp only
    rw [append_nil]
    exact .executing schedule hcalm hrun hphase (Or.inr ⟨error, hmain⟩) hcrew hsignals hentries
  | returned => exact hconclude _ (Or.inl ⟨hmain, rfl⟩)
  | raised error =>
    exact stage_enterCompensating hcalm hrun hmain hsignals hentries
  | cancelled => exact hconclude _ (Or.inr ⟨hmain, rfl⟩)

theorem Engine.stage_enterExecuting (horchestration : engine.orchestration =
      (blank (request.context saga)).orchestration)
    (hcrew : engine.crew = idleCrew) (hparts : PortEvents trace) :
    (enterExecuting saga env request.policy engine).1.Stage saga env request
      calm (trace ++ (enterExecuting saga env request.policy engine).2) := by
  have hctx : engine.orchestration.ctx = request.context saga := by
    rw [horchestration]
    rfl
  unfold enterExecuting
  apply @stage_settleExecution _ V E _ saga env request calm _ trace []
  · simp
  · rw [hctx, hparts.steps]
    rfl
  · rfl
  · exact hcrew
  · exact hparts.signals
  · exact hparts.entries

theorem Engine.stage_enterPersisting (horchestration : engine.orchestration =
      (blank (request.context saga)).orchestration)
    (hcrew : engine.crew = idleCrew) (hparts : PortEvents trace) :
    (enterPersisting saga env request.policy engine).1.Stage saga env request
      calm (trace ++ (enterPersisting saga env request.policy engine).2) := by
  unfold enterPersisting
  cases env.persistence with
  | none => exact stage_enterExecuting horchestration hcrew hparts
  | some port =>
    exact .unstarted (Or.inr (Or.inl rfl)) horchestration hcrew (hparts.append ⟨rfl, rfl, rfl⟩)

/-- A port call ends `execute` before the orchestrator is called, or lets it
go on. -/
theorem Engine.stage_afterCall (horchestration : engine.orchestration =
      (blank (request.context saga)).orchestration)
    (hcrew : engine.crew = idleCrew) (hparts : PortEvents trace)
    {following : Engine ι V E × List (EngineEvent ι V E)}
    (hfollowing : following.1.Stage saga env request calm
      (trace ++ following.2)) {reply : CancelReply Unit E}
    (hnext : afterCall engine following reply = (next, events)) :
    next.Stage saga env request calm (trace ++ events) := by
  cases reply with
  | returns value =>
    have hsame : following = (next, events) := hnext
    rwa [hsame] at hfollowing
  | raises error =>
    cases hnext
    exact .unstarted (Or.inr (Or.inr (Or.inl ⟨error, rfl⟩)))
      horchestration hcrew (hparts.append .nil)
  | propagates =>
    cases hnext
    exact .unstarted (Or.inr (Or.inr (Or.inr rfl))) horchestration hcrew (hparts.append .nil)

theorem Engine.stage_resumeMain {cancelled : Bool} {choice : ℕ}
    (hcancel : calm → cancelled = false)
    (hstage : engine.Stage saga env request calm trace)
    (h : engine.resumeMain saga env request.policy cancelled choice = some (next, events)) :
    next.Stage saga env request calm (trace ++ events) := by
  cases hstage with
  | unstarted hphase horchestration hcrew hparts =>
    unfold resumeMain at h
    rcases hphase with hphase | hphase | ⟨error, hphase⟩ | hphase
    · rw [hphase] at h
      obtain ⟨port, hport, hnext⟩ := Option.map_eq_some_iff.mp h
      exact stage_afterCall horchestration hcrew hparts
        (stage_enterPersisting horchestration hcrew hparts) hnext
    · rw [hphase] at h
      obtain ⟨port, hport, hnext⟩ := Option.map_eq_some_iff.mp h
      exact stage_afterCall horchestration hcrew hparts
        (stage_enterExecuting horchestration hcrew hparts) hnext
    · rw [hphase] at h
      cases h
    · rw [hphase] at h
      cases h
  | executing schedule hcalm hrun hphase hmain hcrew hsignals hentries =>
    unfold resumeMain at h
    rw [hphase] at h
    obtain ⟨orchestration, hmoved, hnext⟩ := Option.map_eq_some_iff.mp h
    have hpick : ∃ pick : OrchestratorPick ι, (calm → pick ≠ .cancelCaller) ∧
        (orchestrator saga env).step engine.orchestration pick = some (orchestration, []) := by
      cases cancelled with
      | true =>
        refine ⟨.cancelCaller, fun hcalmly => ?_, ?_⟩
        · exact absurd (hcancel hcalmly) (by simp)
        · show (engine.orchestration.cancelCaller).map _ = _
          rw [show engine.orchestration.cancelCaller = some orchestration from hmoved]
          rfl
      | false =>
        refine ⟨.main choice, fun _ => by simp, ?_⟩
        show (engine.orchestration.resumeMain saga choice).map _ = _
        rw [show engine.orchestration.resumeMain saga choice = some orchestration from hmoved]
        rfl
    obtain ⟨pick, hquiet, hstep⟩ := hpick
    have hsnoc := Machine.runFrom_snoc hrun hstep
    rw [append_nil] at hsnoc
    have hschedule : calm → .cancelCaller ∉ schedule ++ [pick] := by
      intro hcalmly hmem
      rcases mem_append.mp hmem with hold | hnew
      · exact hcalm hcalmly hold
      · exact hquiet hcalmly (mem_singleton.mp hnew).symm
    have hstage := @stage_settleExecution _ V E _ saga env request calm
      { engine with phase := .executing, orchestration := orchestration }
      trace (schedule ++ [pick]) hschedule hsnoc rfl hcrew hsignals
      hentries
    have hsame : settleExecution saga env request.policy { engine with
          phase := .executing
          orchestration := orchestration } = (next, events) := hnext
    rwa [hsame] at hstage
  | concluded schedule hcalm hrun verdict hverdict hpast hcrew hsignals hentries =>
      obtain ⟨hported, hstill⟩ := Engine.resumePast hpast h
      refine .concluded schedule hcalm ?_ verdict ?_ ?_ ?_ ?_ ?_
      · rw [hported.parts.stepEvents_append, hported.orchestration]
        exact hrun
      · rw [hported.orchestration]
        exact hverdict
      · rw [hported.orchestration]
        exact hstill
      · rw [hported.crew]
        exact hcrew
      · rw [hported.parts.signals_append]
        exact hsignals
      · rw [hported.parts.entries_append]
        exact hentries
  | compensating schedule crewSchedule hcalm hrun error hraised hcrewRun hentries hend =>
      rcases hend with ⟨hphase, _⟩ | ⟨result, hdone, hpast⟩
      · unfold resumeMain at h
        rw [hphase] at h
        obtain ⟨moved, hmoved, hnext⟩ := Option.map_eq_some_iff.mp h
        have hsnoc := Machine.runFrom_snoc hcrewRun hmoved
        have hquiet : calm → (if cancelled then CrewPick.cancelCaller else .main choice) ≠
              .cancelCaller := by
          intro hcalmly
          rw [hcancel hcalmly]
          simp
        have hschedules : calm → .cancelCaller ∉ schedule ∧ .cancelCaller ∉ crewSchedule ++
              [if cancelled then CrewPick.cancelCaller else .main choice] := by
          intro hcalmly
          refine ⟨(hcalm hcalmly).1, fun hmem => ?_⟩
          rcases mem_append.mp hmem with hold | hnew
          · exact (hcalm hcalmly).2 hold
          · exact hquiet hcalmly (mem_singleton.mp hnew).symm
        have hstage := @stage_settleCompensation _ V E _ saga env request calm
          { engine with phase := .compensating error, crew := moved.1 }
          (trace ++ moved.2.map .compensation) schedule _ hschedules
          (by
            rw [stepEvents_append, stepEvents_map_compensation, append_nil]
            exact hrun)
          error hraised
          (by
            rw [compensationSignals_append, compensationSignals_map_compensation]
            exact hsnoc)
          (by
            rw [compensationEntries_append, compensationEntries_map_compensation, append_nil]
            exact hentries)
          rfl
        simp only [Prod.mk.injEq] at hnext
        rw [← hnext.1, ← hnext.2, ← append_assoc]
        exact hstage
      · obtain ⟨hported, hstill⟩ := Engine.resumePast hpast h
        refine .compensating schedule crewSchedule hcalm ?_ error ?_ ?_ ?_
          (Or.inr ⟨result, ?_, ?_⟩)
        · rw [hported.parts.stepEvents_append, hported.orchestration]
          exact hrun
        · rw [hported.orchestration]
          exact hraised
        · rw [hported.parts.signals_append, hported.orchestration, hported.crew]
          exact hcrewRun
        · rw [hported.parts.entries_append, hported.orchestration]
          exact hentries
        · rw [hported.crew]
          exact hdone
        · rw [hported.orchestration]
          exact hstill

theorem Orchestration.main_step {config moved : Orchestration ι V E}
    {steps : List (StepEvent ι V E)} {pick : OrchestratorPick ι}
    (hpick : (∃ step, pick = .task step) ∨ ∃ index, pick = .thread index)
    (h : config.step saga env pick = some (moved, steps)) :
    moved.main = config.main := by
  rcases hpick with ⟨step, hpick⟩ | ⟨index, hpick⟩
  · rw [hpick] at h
    obtain ⟨stepDef, task, effects, _, _, _, hmoved⟩ := resumeTask_cases h
    rw [hmoved]
    exact (foldl_absorb_frame step _ effects).2.2.1
  · rw [hpick] at h
    change config.finishThread env index = some (moved, steps) at h
    unfold Orchestration.finishThread at h
    cases hthread : config.threads[index]? with
    | none =>
      rw [hthread] at h
      cases h
    | some thread =>
      rw [hthread] at h
      have hmoved : { config with
          threads := config.threads.eraseIdx index } = moved :=
        congrArg Prod.fst (Option.some.inj h)
      rw [← hmoved]

/-- What a cancelled `execute` concludes does not depend on the context. -/
theorem EnginePhase.Past.of_cancelled {verdict : Verdict E}
    {ctx ctx' : SagaContext ι V E} {phase : EnginePhase ι V E}
    (hcancelled : verdict.cancelled = true)
    (h : phase.Past saga env verdict ctx) :
    phase.Past saga env verdict ctx' := by
  have hconclude : Engine.conclude saga env verdict ctx =
      Engine.conclude saga env verdict ctx' := by
    unfold Engine.conclude
    rw [if_pos hcancelled, if_pos hcancelled]
  cases h with
  | completing => exact .completing
  | marking => exact .marking
  | concluded =>
    rw [hconclude]
    exact .concluded
  | raised error => exact .raised error
  | cancelled => exact .cancelled

theorem Engine.stage_moveSteps {pick : OrchestratorPick ι}
    (hpick : (∃ step, pick = .task step) ∨ ∃ index, pick = .thread index)
    (hstage : engine.Stage saga env request calm trace)
    (h : engine.moveSteps saga env pick = some (next, events)) :
    next.Stage saga env request calm (trace ++ events) := by
  obtain ⟨moved, hmoved, hnext⟩ := Option.map_eq_some_iff.mp h
  rw [Prod.mk.injEq] at hnext
  have hmain := Orchestration.main_step hpick hmoved
  have hnocancel : pick ≠ .cancelCaller := by
    intro hcancel
    rw [hcancel] at hpick
    simp at hpick
  have hquiet : ∀ schedule : List (OrchestratorPick ι),
      .cancelCaller ∉ schedule → .cancelCaller ∉ schedule ++ [pick] := by
    intro schedule hcalm hmem
    rcases mem_append.mp hmem with hold | hnew
    · exact hcalm hold
    · exact hnocancel (mem_singleton.mp hnew).symm
  have hsteps : stepEvents (trace ++ moved.2.map .step) = stepEvents trace ++ moved.2 := by
    rw [stepEvents_append, stepEvents_map_step]
  have hsignals : compensationSignals (trace ++ moved.2.map .step) =
      compensationSignals trace := by
    rw [compensationSignals_append, compensationSignals_map_step, append_nil]
  have hentries : compensationEntries (trace ++ moved.2.map .step) =
      compensationEntries trace := by
    rw [compensationEntries_append, compensationEntries_map_step, append_nil]
  rw [← hnext.1, ← hnext.2]
  cases hstage with
  | unstarted hphase horchestration hcrew hparts =>
    have hblank : (Engine.blank (request.context saga) :
        Engine ι V E).orchestration.Idle := fun _ => Or.inl rfl
    rw [horchestration] at hmoved
    rcases hpick with ⟨step, hpick⟩ | ⟨index, hpick⟩
    · rw [hpick] at hmoved
      have hnone := @Orchestration.Idle.resumeTask _ V E _ saga env _ hblank step
      rw [show (Engine.blank (request.context saga)).orchestration.step
        saga env (.task step) = none from hnone] at hmoved
      cases hmoved
    · rw [hpick] at hmoved
      cases hmoved
  | executing schedule hcalm hrun hphase hwaiting hcrew hnosignals hnoentries =>
      have hsnoc := Machine.runFrom_snoc hrun hmoved
      rw [← hsteps] at hsnoc
      exact .executing (schedule ++ [pick])
        (fun hcalmly => hquiet schedule (hcalm hcalmly)) hsnoc hphase
        (by rw [hmain]; exact hwaiting) hcrew (hsignals.trans hnosignals)
        (hentries.trans hnoentries)
  | concluded schedule hcalm hrun verdict hverdict hpast hcrew hnosignals hnoentries =>
      have hsnoc := Machine.runFrom_snoc hrun hmoved
      rw [← hsteps] at hsnoc
      refine .concluded (schedule ++ [pick])
        (fun hcalmly => hquiet schedule (hcalm hcalmly)) hsnoc verdict
        (by rw [hmain]; exact hverdict) ?_ hcrew (hsignals.trans hnosignals)
        (hentries.trans hnoentries)
      rcases hverdict with ⟨hreturned, hverdict⟩ | ⟨_, hverdict⟩
      · have hsettled : engine.orchestration.Settled := Or.inl hreturned
        have hidle : engine.orchestration.Idle := by
          have hall := @orchestrate_idle _ V E _ saga env request schedule
          rw [hrun] at hall
          exact hall hsettled
        rw [(frozen_step hidle hsettled hmoved).1]
        exact hpast
      · apply EnginePhase.Past.of_cancelled _ hpast
        rw [hverdict]
  | compensating schedule crewSchedule hcalm hrun error hraised hcrewRun hentered hend =>
      have hsnoc := Machine.runFrom_snoc hrun hmoved
      rw [← hsteps] at hsnoc
      have hsettled : engine.orchestration.Settled :=
        Or.inr ⟨error, hraised⟩
      have hidle : engine.orchestration.Idle := by
        have hall := @orchestrate_idle _ V E _ saga env request schedule
        rw [hrun] at hall
        exact hall hsettled
      have hctx := (frozen_step hidle hsettled hmoved).1
      refine .compensating (schedule ++ [pick]) crewSchedule
        (fun hcalmly => ⟨hquiet schedule (hcalm hcalmly).1,
          (hcalm hcalmly).2⟩) hsnoc error (by rw [hmain]; exact hraised)
        ?_ ?_ ?_
      · rw [hctx, hsignals]
        exact hcrewRun
      · rw [hctx, hentries]
        exact hentered
      · rw [hctx]
        exact hend

theorem Engine.stage_moveCompensations {pick : CrewPick}
    (hpick : (∃ index, pick = .child index) ∨ ∃ index, pick = .orphan index)
    (hstage : engine.Stage saga env request calm trace)
    (h : engine.moveCompensations env pick = some (next, events)) :
    next.Stage saga env request calm (trace ++ events) := by
  obtain ⟨moved, hmoved, hnext⟩ := Option.map_eq_some_iff.mp h
  rw [Prod.mk.injEq] at hnext
  have hidle : engine.crew ≠ idleCrew := by
    intro hcrew
    rw [hcrew] at hmoved
    rcases hpick with ⟨index, hpick⟩ | ⟨index, hpick⟩
    · rw [hpick] at hmoved
      cases hmoved
    · rw [hpick] at hmoved
      cases hmoved
  have hmain : moved.1.main = engine.crew.main := by
    rcases hpick with ⟨index, hpick⟩ | ⟨index, hpick⟩
    · rw [hpick] at hmoved
      obtain ⟨_, _, heq⟩ := Option.map_eq_some_iff.mp hmoved
      rw [← heq]
    · rw [hpick] at hmoved
      obtain ⟨_, _, heq⟩ := Option.map_eq_some_iff.mp hmoved
      rw [← heq]
  rw [← hnext.1, ← hnext.2]
  cases hstage with
  | unstarted hphase horchestration hcrew hparts => exact absurd hcrew hidle
  | executing schedule hcalm hrun hphase hwaiting hcrew hsignals hentries =>
    exact absurd hcrew hidle
  | concluded schedule hcalm hrun verdict hverdict hpast hcrew hsignals
      hentries => exact absurd hcrew hidle
  | compensating schedule crewSchedule hcalm hrun error hraised hcrewRun hentered hend =>
      have hsnoc := Machine.runFrom_snoc hcrewRun hmoved
      refine .compensating schedule (crewSchedule ++ [pick]) ?_ ?_ error hraised ?_ ?_ ?_
      · intro hcalmly
        refine ⟨(hcalm hcalmly).1, fun hmem => ?_⟩
        rcases mem_append.mp hmem with hold | hnew
        · exact (hcalm hcalmly).2 hold
        · rw [← mem_singleton.mp hnew] at hpick
          simp at hpick
      · rw [stepEvents_append, stepEvents_map_compensation, append_nil]
        exact hrun
      · rw [compensationSignals_append, compensationSignals_map_compensation]
        exact hsnoc
      · rw [compensationEntries_append, compensationEntries_map_compensation, append_nil]
        exact hentered
      · rw [show ({ engine with crew := moved.1 } : Engine ι V E).crew.main =
          engine.crew.main from hmain]
        exact hend

theorem Engine.Stage.step (hstage : engine.Stage saga env request calm trace)
    {pick : EnginePick ι} (hcalm : calm → pick ≠ .cancelCaller)
    (h : engine.step saga env request.policy pick = some (next, events)) :
    next.Stage saga env request calm (trace ++ events) := by
  cases pick with
  | main choice => exact Engine.stage_resumeMain (fun _ => rfl) hstage h
  | cancelCaller =>
    exact Engine.stage_resumeMain
      (fun hcalmly => absurd rfl (hcalm hcalmly)) hstage h
  | task step => exact Engine.stage_moveSteps (Or.inl ⟨step, rfl⟩) hstage h
  | thread index =>
    exact Engine.stage_moveSteps (Or.inr ⟨index, rfl⟩) hstage h
  | child index =>
    exact Engine.stage_moveCompensations (Or.inl ⟨index, rfl⟩) hstage h
  | orphan index =>
    exact Engine.stage_moveCompensations (Or.inr ⟨index, rfl⟩) hstage h

theorem Engine.stage_start (saga : SagaDefinition ι)
    (env : Environment ι V E) (request : SagaRequest) (calm : Prop) :
    (Engine.start saga env request.policy (request.context saga)).1.Stage saga env request calm
      (Engine.start saga env request.policy (request.context saga)).2 := by
  unfold Engine.start
  cases env.events with
  | none =>
    exact @stage_enterPersisting _ V E _ saga env request calm
      (blank (request.context saga)) [] rfl rfl .nil
  | some port => exact .unstarted (Or.inl rfl) rfl rfl ⟨rfl, rfl, rfl⟩

theorem executeSaga_stage (saga : SagaDefinition ι) (env : Environment ι V E)
    (request : SagaRequest) {schedule : List (EnginePick ι)}
    (hcalm : calm → .cancelCaller ∉ schedule) :
    (executeSaga saga env request schedule).state.Stage saga env request calm
      (executeSaga saga env request schedule).trace := by
  refine Machine.runFrom_invariant_of_allowed
    (fun engine trace => Engine.Stage saga env request calm engine trace)
    (fun pick => calm → pick ≠ .cancelCaller) ?_
    (Engine.stage_start saga env request calm) ?_
  · intro engine trace pick next events hstage hallowed hstep
    exact hstage.step hallowed hstep
  · intro pick hmem hcalmly heq
    exact hcalm hcalmly (heq ▸ hmem)

end Decomposition

end PyFly.Saga
