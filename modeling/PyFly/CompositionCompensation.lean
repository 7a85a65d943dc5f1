import Mathlib
import PyFly.CompensationManager
import PyFly.CompositorContract
import PyFly.EngineCompensation

/-!
# Compensations of a whole composition

A saga which fails compensates its `DONE` steps before it answers, and their
statuses stay `DONE`.  The compositor takes the result over before it looks at
`success`, so that the compensation manager, which goes by the statuses, comes
to the same steps again.
-/

namespace PyFly.Saga

open Library Transactional Compensating List

section Succeed

variable {ι V E : Type} [DecidableEq ι]
variable {saga : SagaDefinition ι} {env : Environment ι V E}

/-- The compensations of a saga succeed: the invocation returns, and the report
of its success, which is made in the same `try` block, does not raise. -/
def CompensationsSucceed (env : Environment ι V E) (saga : SagaDefinition ι) : Prop :=
  ∀ step stepDef, saga.compensable? step = some stepDef →
    env.invokeOneFailure stepDef 0 false = none

theorem CompensationsSucceed.smooth (h : CompensationsSucceed env saga)
    (completed : List ι) : Smooth env saga completed :=
  fun step _ stepDef hstep => h step stepDef hstep

end Succeed

section Engines

variable {ι V E : Type} [LinearOrder ι]
variable {saga : SagaDefinition ι} {env : Environment ι V E}
variable {request : SagaRequest}

theorem CompensationsSucceed.of_returns (hports : env.QuietPorts)
    (hreturns : ∀ step attempt, ∃ value, env.compensation step attempt = .ok value) :
    CompensationsSucceed env saga :=
  fun step stepDef hstep => smooth_of_returns hports hreturns [step] step
    mem_cons_self stepDef hstep

/-- The invocations of a run which has ended: none, or those of the `DONE`
steps after a failure. -/
theorem invocations_of_finished {schedule : List (EnginePick ι)}
    (hcalm : .cancelCaller ∉ schedule)
    (hpolicy : request.policy ≠ .retryWithBackoff)
    (hsucceed : CompensationsSucceed env saga)
    {outcome : EngineOutcome ι V E}
    (hend : (executeSaga saga env request schedule).state.phase = .finished outcome) :
    (∀ step, invocations step (executeSaga saga env request schedule).trace = 0) ∨
      ∀ step, invocations step (executeSaga saga env request schedule).trace =
        if step ∈ (executeSaga saga env request
          schedule).state.orchestration.ctx.doneSteps ∧ saga.Compensable step
        then 1 else 0 := by
  have hstage := executeSaga_stage saga env request
    (show True → .cancelCaller ∉ schedule from fun _ => hcalm)
  generalize (executeSaga saga env request schedule).state = engine at *
  generalize (executeSaga saga env request schedule).trace = trace at *
  have hnone : compensationSignals trace = [] → ∀ step, invocations step trace = 0 := by
    intro hsignals step
    unfold invocations
    rw [hsignals]
    rfl
  cases hstage with
  | unstarted hphase horchestration hcrew hparts =>
    exact Or.inl (hnone hparts.signals)
  | executing steps hcalm hrun hphase hmain hcrew hsignals hentries =>
    exact Or.inl (hnone hsignals)
  | concluded steps hcalm hrun verdict hverdict hpast hcrew hsignals hentries =>
      exact Or.inl (hnone hsignals)
  | compensating steps crewSchedule hcalm hrun error hraised hcrewRun hentries hstop =>
      have hdone : engine.crew.main.isDone = true := by
        rcases hstop with ⟨hcompensating, _⟩ | ⟨result, hresult, _⟩
        · rw [hend] at hcompensating
          cases hcompensating
        · rw [hresult]
          rfl
      have hcovered := @orchestrate_covered _ V E _ saga env request steps
      rw [hrun] at hcovered
      refine Or.inr fun step => ?_
      exact invocations_of_crew (hcalm trivial).2 hcrewRun hdone hcovered.1
        (fun other hmem => (hcovered.2 other hmem).2)
        (fun hretry => absurd hretry hpolicy) (hsucceed.smooth _) step

theorem invocations_of_success {schedule : List (EnginePick ι)}
    (hcalm : .cancelCaller ∉ schedule) {result : SagaResult ι V E}
    (hend : (executeSaga saga env request schedule).state.phase = .finished (.returned result))
    (hsuccess : result.success = true) (step : ι) :
    invocations step (executeSaga saga env request schedule).trace = 0 := by
  have hstage := executeSaga_stage saga env request
    (show True → .cancelCaller ∉ schedule from fun _ => hcalm)
  generalize (executeSaga saga env request schedule).state = engine at *
  generalize (executeSaga saga env request schedule).trace = trace at *
  unfold invocations
  cases hstage with
  | unstarted hphase horchestration hcrew hparts =>
    rw [hparts.signals]
    rfl
  | executing steps hcalm hrun hphase hmain hcrew hsignals hentries =>
    rw [hsignals]
    rfl
  | concluded steps hcalm hrun verdict hverdict hpast hcrew hsignals hentries =>
      rw [hsignals]
      rfl
  | compensating steps crewSchedule hcalm hrun error hraised hcrewRun hentries hstop =>
      rcases hstop with ⟨hcompensating, _⟩ | ⟨outcome, _, hpast⟩
      · rw [hend] at hcompensating
        cases hcompensating
      · rw [hend] at hpast
        have hresult := hpast.returned
        have hfailed : result.success = false := by
          rw [hresult]
          cases outcome with
          | ok value => rfl
          | error fault =>
            cases fault with
            | exception failure => rfl
            | cancelled => rfl
        rw [hsuccess] at hfailed
        cases hfailed

end Engines

section Answers

variable {ι W E : Type} [LinearOrder ι]
variable {saga : SagaDefinition ι} {env : Environment ι (Option W) E}
variable {request : SagaRequest}

open CompensationManager in
/-- A failed run has compensated the steps which its result shows as `DONE`. -/
theorem invocations_of_failed {schedule : List (EnginePick ι)}
    (hcalm : .cancelCaller ∉ schedule)
    (hpolicy : request.policy ≠ .retryWithBackoff)
    (hsucceed : CompensationsSucceed env saga)
    {result : SagaResult ι (Option W) E}
    (hend : (executeSaga saga env request schedule).state.phase = .finished (.returned result))
    (hfailed : result.success = false) (step : ι) :
    invocations step (executeSaga saga env request schedule).trace =
      if step ∈ completedStepIds (some result) ∧ saga.Compensable step
      then 1 else 0 := by
  have hstage := executeSaga_stage saga env request
    (show True → .cancelCaller ∉ schedule from fun _ => hcalm)
  obtain ⟨steps, crewSchedule, error, hquiet, hrun, _, hcrewRun, hdone,
    hresult⟩ := stage_of_failed hstage hend hfailed
  generalize (executeSaga saga env request schedule).state = engine at *
  generalize (executeSaga saga env request schedule).trace = trace at *
  have hcovered := @orchestrate_covered _ _ E _ saga env request steps
  rw [hrun] at hcovered
  have hsame : step ∈ completedStepIds (some result) ↔
      step ∈ engine.orchestration.ctx.doneSteps := by
    rw [mem_completedStepIds, SagaContext.mem_doneSteps]
    constructor
    · intro h
      obtain ⟨other, outcome, hother, hget, hstatus⟩ := h
      rw [← Option.some.inj hother, hresult] at hget
      change (saga.steps.mapValues _).get? step = some outcome at hget
      rw [Dict.get?_mapValues] at hget
      obtain ⟨stepDef, _, houtcome⟩ := Option.map_eq_some_iff.mp hget
      rw [← houtcome] at hstatus
      change (engine.orchestration.ctx.stepStatuses.get? step).getD .pending = .done at hstatus
      show engine.orchestration.ctx.stepStatuses.get? step = some .done
      cases hstored : engine.orchestration.ctx.stepStatuses.get? step with
      | none =>
        rw [hstored] at hstatus
        cases hstatus
      | some status =>
        rw [hstored] at hstatus
        exact congrArg some hstatus
    · intro h
      obtain ⟨stepDef, hget⟩ := Dict.mem_keys_iff.mp
        (hcovered.2 step (SagaContext.mem_doneSteps.mpr h)).1
      refine ⟨result, stepOutcome env engine.orchestration.ctx false
        (some error) step, rfl, ?_, ?_⟩
      · rw [hresult]
        show (saga.steps.mapValues _).get? step = _
        rw [Dict.get?_mapValues, hget]
        rfl
      · show (engine.orchestration.ctx.stepStatuses.get? step).getD _ = _
        rw [show engine.orchestration.ctx.stepStatuses.get? step = some .done from h]
        rfl
  rw [invocations_of_crew (hquiet trivial).2 hcrewRun hdone hcovered.1
    (fun other hmem => (hcovered.2 other hmem).2)
    (fun hretry => absurd hretry hpolicy) (hsucceed.smooth _) step]
  simp only [hsame]

end Answers

section Layerless

variable {ι V E : Type} [DecidableEq ι]
variable {saga : SagaDefinition ι} {env : Environment ι V E}

def Attempts (saga : SagaDefinition ι) (policy : CompensationPolicy) (step : ι) : Prop :=
  policy ≠ .groupedParallel ∧ Tried saga policy step

theorem attempts_of_other {policy : CompensationPolicy} (hgrouped : policy ≠ .groupedParallel)
    (hretry : policy ≠ .retryWithBackoff) {step : ι} :
    Attempts saga policy step ↔ saga.Compensable step := by
  constructor
  · intro h
    obtain ⟨_, stepDef, hstep, _⟩ := h
    exact SagaDefinition.compensable_of_some hstep
  · intro h
    obtain ⟨stepDef, hstep⟩ := Option.isSome_iff_exists.mp h
    exact ⟨hgrouped, stepDef, hstep, fun hsame => absurd hsame hretry⟩

theorem countP_retryRound_cases (hsucceed : CompensationsSucceed env saga) (step : ι) :
    (Attempts saga .retryWithBackoff step ∧
        ((retryRound env saga step).queries env.compensationAnswer).countP
          (CompensationQuery.invokes step) = 1) ∨
      (¬ Attempts saga .retryWithBackoff step ∧
        ((retryRound env saga step).queries env.compensationAnswer).countP
          (CompensationQuery.invokes step) = 0) := by
  cases hstep : saga.compensable? step with
  | none =>
    right
    constructor
    · intro h
      obtain ⟨_, stepDef, hsome, _⟩ := h
      rw [hstep] at hsome
      cases hsome
    · unfold retryRound
      rw [hstep]
      rfl
  | some stepDef =>
    have hfilter := filter_retryOne env stepDef
    rw [SagaDefinition.id_of_compensable? hstep] at hfilter
    rw [retryRound_of_some hstep, countP_eq_length_filter, hfilter, length_map]
    by_cases hcount : 1 ≤ compensationMaxRetries stepDef
    · left
      refine ⟨⟨by simp, stepDef, hstep, fun _ => hcount⟩, ?_⟩
      rw [attempts_of_first hcount (hsucceed step stepDef hstep)]
      rfl
    · right
      constructor
      · intro h
        obtain ⟨_, other, hother, hattempt⟩ := h
        rw [hstep] at hother
        rw [← Option.some.inj hother] at hattempt
        exact hcount (hattempt rfl)
      · unfold attempts
        rw [Int.toNat_of_nonpos (by omega)]
        rfl

theorem weight_without_layers (policy : CompensationPolicy)
    {completed : List ι} (hnodup : completed.Nodup)
    (hsucceed : CompensationsSucceed env saga) (step : ι) :
    ((step ∈ completed ∧ Attempts saga policy step) ∧
        env.compensationRules.weight (CompensationQuery.invokes step)
          ((compensate env saga policy completed []).queries env.compensationAnswer) = 1) ∨
      (¬ (step ∈ completed ∧ Attempts saga policy step) ∧
        env.compensationRules.weight (CompensationQuery.invokes step)
          ((compensate env saga policy completed []).queries env.compensationAnswer) = 0) := by
  have hother : policy ≠ .groupedParallel → policy ≠ .retryWithBackoff →
      ((step ∈ completed ∧ Attempts saga policy step) ∧
        env.compensationRules.weight (CompensationQuery.invokes step)
          ((compensate env saga policy completed []).queries env.compensationAnswer) = 1) ∨
      (¬ (step ∈ completed ∧ Attempts saga policy step) ∧
        env.compensationRules.weight (CompensationQuery.invokes step)
          ((compensate env saga policy completed []).queries env.compensationAnswer) = 0) := by
    intro hgrouped hretry
    have hlayers : ([] : List (List ι)).flatten.Nodup := nodup_nil
    rw [attempts_of_other hgrouped hretry, weight_compensate hnodup hlayers
        (fun hsame => absurd hsame hgrouped)
        (fun hsame => absurd hsame hretry) (hsucceed.smooth completed) step]
    by_cases hmem : step ∈ completed ∧ saga.Compensable step
    · exact Or.inl ⟨hmem, if_pos hmem⟩
    · exact Or.inr ⟨hmem, if_neg hmem⟩
  cases policy with
  | strictSequential => exact hother (by simp) (by simp)
  | groupedParallel =>
    have hnothing : (compensate env saga .groupedParallel completed [] :
        Compensating ι V E Unit) = pure () := by
      cases completed with
      | nil => rfl
      | cons first rest => rfl
    right
    refine ⟨fun h => h.2.1 rfl, ?_⟩
    rw [hnothing]
    rfl
  | retryWithBackoff =>
    have hok : ∀ item ∈ completed.reverse,
        (retryRound env saga item).outcome env.compensationAnswer = .ok () := by
      intro item _
      rw [outcome_retryRound_eq_ok]
      intro stepDef hstep
      by_cases hcount : 1 ≤ compensationMaxRetries stepDef
      · exact settles_of_first hcount (hsucceed item stepDef hstep)
      · exact Or.inl (by omega)
    rw [compensate_retryWithBackoff, weight_forEach (nodup_reverse.mpr hnodup) step
        retryRound_always, Async.begun_of_all_ok _ hok]
    simp only [mem_reverse]
    by_cases hmem : step ∈ completed
    · rw [if_pos hmem]
      rcases countP_retryRound_cases hsucceed step with
        ⟨hattempts, hcount⟩ | ⟨hattempts, hcount⟩
      · exact Or.inl ⟨⟨hmem, hattempts⟩, hcount⟩
      · exact Or.inr ⟨fun h => hattempts h.2, hcount⟩
    · rw [if_neg hmem]
      exact Or.inr ⟨fun h => hmem h.1, rfl⟩
  | circuitBreaker => exact hother (by simp) (by simp)
  | bestEffortParallel => exact hother (by simp) (by simp)

end Layerless

/-! ## The run of a composition -/

structure CompositionEnvironment (σ ι W E : Type) where
  registry : σ → Option (SagaDefinition ι)
  notRegistered : σ → E
  execution : σ → Environment ι (Option W) E
  schedule : σ → List (EnginePick ι)
  compensation : σ → Environment ι (Option W) E
  compensationSchedule : σ → List CrewPick

def EngineOutcome.reply {ι W E : Type} : EngineOutcome ι (Option W) E → SagaReply ι W E
  | .returned result => .ok result
  | .raised error => .error (.exception error)
  | .cancelled => .error .cancelled

/-- The call of the engine by the compositor, which names no compensation
policy and gets the default. -/
def compositorRequest (correlationId : String) (headers : Dict String String) : SagaRequest :=
  ⟨correlationId, headers, .strictSequential⟩

namespace CompositionEnvironment

variable {σ ι W E : Type} [LinearOrder σ] [LinearOrder ι]
variable (env : CompositionEnvironment σ ι W E) (request : SagaRequest)

def access : EngineAccess σ ι W E := ⟨env.registry, env.compensation⟩

def run (name : σ) (saga : SagaDefinition ι) :
    Execution (Engine ι (Option W) E) (EngineEvent ι (Option W) E) :=
  executeSaga saga (env.execution name) request (env.schedule name)

def Answers (name : σ) (reply : SagaReply ι W E) : Prop :=
  match env.registry name with
  | none => reply = .error (.exception (env.notRegistered name))
  | some saga => ∃ outcome, (env.run request name saga).state.phase = .finished outcome ∧
        reply = outcome.reply

def ownInvocations (name : σ) (step : ι) : ℕ :=
  match env.registry name with
  | none => 0
  | some saga => invocations step (env.run request name saga).trace

/-- `except Exception` of the compositor. -/
def managed (composition : SagaComposition σ ι)
    (forwarded : Progress σ ι W E × Option (Fault E)) :
    ManagerRun σ ι W E :=
  match SagaCompositor.failure? forwarded with
  | none => ⟨[], forwarded.1.context, .returned⟩
  | some (ctx, completed) =>
    CompensationManager.compensateCompleted env.access
      composition.compensationPolicy env.compensationSchedule completed ctx

end CompositionEnvironment

def managerInvocations {σ ι W E : Type} [DecidableEq σ] [DecidableEq ι]
    (name : σ) (step : ι) (events : List (ManagerEvent σ ι W E)) : ℕ :=
  events.countP fun event =>
    match event with
    | .compensation saga signal =>
      decide (saga = name) && signal.issues (CompensationQuery.invokes step)
    | .appended _ => false

def compositionInvocations {σ ι W E : Type} [LinearOrder σ] [LinearOrder ι]
    (env : CompositionEnvironment σ ι W E) (request : SagaRequest)
    (composition : SagaComposition σ ι)
    (forwarded : Progress σ ι W E × Option (Fault E)) (name : σ)
    (step : ι) : ℕ :=
  (if name ∈ SagaCompositor.Progress.called forwarded.1 then
    env.ownInvocations request name step else 0) +
    managerInvocations name step (env.managed composition forwarded).events

namespace SagaCompositor

section Stored

variable {σ ι W E : Type} [LinearOrder σ] [DecidableEq ι] [ToString σ]
variable {asDict : W → Option (Dict σ (Option W))}
variable {errors : CompositorErrors σ E} {composition : SagaComposition σ ι}
variable {replies : σ → SagaReply ι W E} {initialInput : Option W}

def Stored (replies : σ → SagaReply ι W E) (progress : Progress σ ι W E) :
    Prop :=
  ∀ name ∈ progress.completed, ∃ result, replies name = .ok result ∧
    progress.context.sagaResults.get? name = some result

omit [DecidableEq ι] [ToString σ] in
theorem Stored.complete {progress : Progress σ ι W E} (h : Stored replies progress) {name : σ}
    {result : SagaResult ι (Option W) E} (hreply : replies name = .ok result) :
    Stored replies (complete name result progress) := by
  intro other hmem
  by_cases hsame : other = name
  · rw [hsame]
    exact ⟨result, hreply, Dict.get?_set_self _ name result⟩
  · have hold : other ∈ progress.completed := by
      rcases mem_append.mp hmem with hold | hnew
      · exact hold
      · exact absurd (mem_singleton.mp hnew) hsame
    obtain ⟨found, hfound, hget⟩ := h other hold
    refine ⟨found, hfound, ?_⟩
    rw [← hget]
    exact Dict.get?_set_of_ne hsame result

omit [DecidableEq ι] in
theorem Stored.processResults {layer : List σ}
    (hlayer : ∀ name ∈ layer, name ∈ composition.entries.keys)
    {progress : Progress σ ι W E} (h : Stored replies progress) :
    Stored replies (processResults errors composition
      (layer.zip (layer.map (sagaReply errors composition replies))) progress).1 := by
  induction layer generalizing progress with
  | nil => exact h
  | cons name rest ih =>
    rw [map_cons, zip_cons_cons, sagaReply_of_mem (hlayer name mem_cons_self)]
    cases hanswer : replies name with
    | error fault => exact h
    | ok result =>
      unfold SagaCompositor.processResults
      split
      · exact ih (fun other hmem =>
          hlayer other (mem_cons_of_mem name hmem))
          (h.complete hanswer)
      · exact h.complete hanswer

theorem Stored.runLayers {layers : List (List σ)}
    (hlayers : ∀ name ∈ layers.flatten, name ∈ composition.entries.keys)
    {progress : Progress σ ι W E} (h : Stored replies progress) :
    Stored replies (runLayers asDict errors composition replies initialInput
      layers progress).1 := by
  induction layers generalizing progress with
  | nil => exact h
  | cons layer rest ih =>
    obtain ⟨hresults, hcompleted, _⟩ := @resolve_layer _ ι W E _ _ asDict
      composition initialInput layer progress
    have hresolved : Stored replies (layer.foldl
        (resolveSaga asDict composition initialInput) progress) := by
      unfold Stored
      rw [hresults, hcompleted]
      exact h
    have hprocessed := @Stored.processResults _ ι W E _ _ errors composition replies layer
      (fun name hmem => hlayers name (mem_append_left _ hmem)) _
      hresolved
    unfold SagaCompositor.runLayers
    dsimp only
    rcases hresult : SagaCompositor.processResults errors composition
      (layer.zip (layer.map (sagaReply errors composition replies)))
      (layer.foldl (resolveSaga asDict composition initialInput) progress) with ⟨next, fault⟩
    rw [hresult] at hprocessed
    cases fault with
    | none =>
      exact ih (fun name hmem =>
        hlayers name (mem_append_right layer hmem)) hprocessed
    | some fault => exact hprocessed

theorem stored_forward {correlationId : String} {run : Progress σ ι W E × Option (Fault E)}
    (hrun : forward asDict errors composition replies initialInput
      correlationId = .ok run) : Stored replies run.1 := by
  unfold forward at hrun
  cases hlayers : computeLayers composition.deps with
  | error error =>
    rw [hlayers] at hrun
    cases hrun
  | ok layers =>
    rw [hlayers] at hrun
    rw [← Except.ok.inj hrun]
    apply Stored.runLayers
    · exact fun name hmem => (SagaComposition.mem_layers hlayers).mp hmem
    · intro name hmem
      cases hmem

end Stored

end SagaCompositor

namespace CompensationManager

section Managed

variable {σ ι W E : Type} [DecidableEq σ] [DecidableEq ι]
variable {access : EngineAccess σ ι W E} {policy : CompensationPolicy}
variable {schedules : σ → List CrewPick} {ctx : CompositionContext σ ι W E}
variable {completed : List σ}

theorem managerInvocations_part (name other : σ) (step : ι) :
    managerInvocations name step (part access policy schedules ctx other) = if other = name then
        match compensateSaga access policy schedules ctx name with
        | none => 0
        | some execution => execution.trace.countP
            (Signal.issues (CompensationQuery.invokes step))
      else 0 := by
  by_cases hsame : other = name
  · rw [hsame, if_pos rfl]
    unfold part managerInvocations
    cases compensateSaga access policy schedules ctx name with
    | none => rfl
    | some execution =>
      dsimp only
      rw [countP_append, countP_map]
      simp [Function.comp_def]
  · rw [if_neg hsame]
    apply countP_eq_zero.mpr
    intro event hmem
    have hsaga := part_saga ctx other event hmem
    cases event with
    | compensation saga signal =>
      change saga = other at hsaga
      simp [hsaga, hsame]
    | appended saga => simp

theorem managerInvocations_returned (hnodup : completed.Nodup)
    (hreturned : (compensateCompleted access policy schedules completed
      ctx).outcome = .returned) (name : σ) (step : ι) :
    managerInvocations name step (compensateCompleted access policy schedules
        completed ctx).events =
      if name ∈ completed then
        managerInvocations name step (part access policy schedules ctx name)
      else 0 := by
  have hzero : ∀ other, other ≠ name → other ∈ completed.reverse →
      managerInvocations name step (part access policy schedules ctx other) = 0 := by
    intro other hne _
    rw [managerInvocations_part, if_neg hne]
  unfold compensateCompleted at hreturned ⊢
  rw [(compensateSagas_returned hreturned).1]
  show List.countP _ (completed.reverse.flatMap _) = _
  rw [countP_flatMap]
  show (completed.reverse.map fun other => managerInvocations name step
    (part access policy schedules ctx other)).sum = _
  rw [sum_map_eq_nsmul_single name _ hzero, List.Nodup.count (nodup_reverse.mpr hnodup)]
  simp only [mem_reverse]
  split
  · exact one_nsmul _
  · exact zero_nsmul _

/-- When nothing fails, the manager invokes once what the policy attempts of
the `DONE` steps of a stored result, and nothing else. -/
theorem managerInvocations_cases (hnodup : completed.Nodup)
    (hcalm : ∀ name, .cancelCaller ∉ schedules name)
    (hreturned : (compensateCompleted access policy schedules completed
      ctx).outcome = .returned)
    {name : σ} (hname : name ∈ completed) {saga : SagaDefinition ι}
    (hsaga : access.registry name = some saga)
    (hsucceed : CompensationsSucceed (access.env name) saga) (step : ι) :
    ((step ∈ completedStepIds (ctx.sagaResults.get? name) ∧ Attempts saga policy step) ∧
        managerInvocations name step (compensateCompleted access policy
          schedules completed ctx).events = 1) ∨
      (¬ (step ∈ completedStepIds (ctx.sagaResults.get? name) ∧ Attempts saga policy step) ∧
        managerInvocations name step (compensateCompleted access policy
          schedules completed ctx).events = 0) := by
  rw [managerInvocations_returned hnodup hreturned, if_pos hname,
    managerInvocations_part, if_pos rfl]
  generalize hsteps : completedStepIds (ctx.sagaResults.get? name) = steps
  cases hcall : compensateSaga access policy schedules ctx name with
  | none =>
    refine Or.inr ⟨?_, rfl⟩
    intro h
    have hmem := h.1
    rw [← hsteps] at hmem
    rw [compensateSaga_of_mem policy schedules hsaga hmem] at hcall
    cases hcall
  | some execution =>
    have hcompensation : execution = compensation (access.env name) saga
        policy steps [] (schedules name) := by
      unfold compensateSaga at hcall
      rw [hsaga] at hcall
      dsimp only at hcall
      rw [hsteps] at hcall
      split at hcall
      · cases hcall
      · exact (Option.some.inj hcall).symm
    have hdone := (compensateSagas_returned hreturned).2.2 name (mem_reverse.mpr hname) _ hcall
    rw [hcompensation] at hdone ⊢
    have hissues := (agreeable_execute (@agreeable_compensate _ _ _ _
        (access.env name) saga policy steps []
        fun _ => loneFailure_of_no_layers saga steps)
      (CompensationQuery.invokes step) (hcalm name) hdone).2.1
    have hweight := @weight_without_layers _ _ _ _ saga (access.env name)
      policy steps (by rw [← hsteps]; exact completedStepIds_nodup _)
      hsucceed step
    rcases hweight with ⟨hattempts, hone⟩ | ⟨hattempts, hzero⟩
    · exact Or.inl ⟨hattempts, hissues.trans hone⟩
    · exact Or.inr ⟨hattempts, hissues.trans hzero⟩

theorem managerInvocations_unregistered (hnodup : completed.Nodup)
    (hreturned : (compensateCompleted access policy schedules completed
      ctx).outcome = .returned)
    {name : σ} (hnone : access.registry name = none) (step : ι) :
    managerInvocations name step (compensateCompleted access policy
      schedules completed ctx).events = 0 := by
  rw [managerInvocations_returned hnodup hreturned]
  split
  · rw [managerInvocations_part, if_pos rfl]
    unfold compensateSaga
    rw [hnone]
  · rfl

end Managed

end CompensationManager

section Once

variable {σ ι W E : Type} [LinearOrder σ] [LinearOrder ι] [ToString σ]
variable {asDict : W → Option (Dict σ (Option W))}
variable {errors : CompositorErrors σ E} {composition : SagaComposition σ ι}
variable {replies : σ → SagaReply ι W E} {initialInput : Option W}
variable {env : CompositionEnvironment σ ι W E}

open SagaCompositor CompensationManager

/-- The condition on the answers of the engine: the first saga which fails
answers with no result, or with one in which no step is `DONE` whose
compensation the policy of the composition would attempt. -/
def FailsClean (env : CompositionEnvironment σ ι W E)
    (composition : SagaComposition σ ι) (replies : σ → SagaReply ι W E) :
    Prop :=
  ∀ before failed after result saga, FirstFailure composition replies before failed after →
    replies failed = .ok result → env.registry failed = some saga →
    ∀ step ∈ completedStepIds (some result), ¬ Attempts saga composition.compensationPolicy step

theorem failure_of_firstFailure {correlationId : String}
    {run : Progress σ ι W E × Option (Fault E)}
    (hrun : forward asDict errors composition replies initialInput correlationId = .ok run)
    {before after : List σ} {failed : σ}
    (hfirst : FirstFailure composition replies before failed after)
    {result : SagaResult ι (Option W) E}
    (hreply : replies failed = .ok result) :
    ∃ ctx handed, failure? run = some (ctx, handed) := by
  obtain ⟨layers, hlayers, hran⟩ := forward_ran hrun
  obtain ⟨progress, fault⟩ := run
  dsimp only at hran
  cases hran with
  | through hall hcompleted hcalled =>
    obtain ⟨earlier, rest, hsame, _, hfailed⟩ := hfirst
    rw [hlayers] at hsame
    rw [Except.ok.inj hsame] at hall
    exact absurd (hall failed (by simp)) hfailed
  | stopped earlier layer rest fault hsplit hearlier hlayer hcalled =>
    cases fault with
    | exception error => exact ⟨_, _, rfl⟩
    | cancelled =>
      generalize progress.completed = completed at hlayer
      generalize hfault : (some .cancelled : Option (Fault E)) = ended
        at hlayer
      cases hlayer with
      | through => cases hfault
      | unsuccessful => cases hfault
      | raised start lost last other hlayerSplit hstart hlost =>
        have hother : FirstFailure composition replies start lost
            last := by
          refine ⟨earlier, rest, ?_, ?_, not_succeeds_of_raised hlost⟩
          · rw [hlayers, hsplit, hlayerSplit]
          · intro name hmem
            rcases mem_append.mp hmem with hbefore | hsame
            · exact hearlier name hbefore
            · exact hstart name hsame
        rw [(hfirst.unique hother).2.1, hlost] at hreply
        cases hreply

section Handed

variable {correlationId : String} {run : Progress σ ι W E × Option (Fault E)}
variable {ctx : CompositionContext σ ι W E} {handed : List σ}

theorem handed_nodup (hrun : forward asDict errors composition replies initialInput
      correlationId = .ok run)
    (hfailure : failure? run = some (ctx, handed)) : handed.Nodup := by
  obtain ⟨earlier, before, failed, after, rest, hlayers, _, _, hend⟩ :=
    failure_of_forward hrun hfailure
  have hall := SagaComposition.layers_nodup hlayers
  have hsame : (earlier ++ (before ++ failed :: after) :: rest).flatten =
      earlier.flatten ++ (before ++ [failed]) ++ (after ++ rest.flatten) := by
    simp
  rw [hsame] at hall
  have hfirst := (nodup_append.mp hall).1
  rcases hend with ⟨_, hhanded⟩ | ⟨_, hhanded⟩
  · rw [hhanded]
    rw [← append_assoc] at hfirst
    exact (nodup_append.mp hfirst).1
  · rw [hhanded]
    exact hfirst

theorem stored_handed (hrun : forward asDict errors composition replies initialInput
      correlationId = .ok run)
    (hfailure : failure? run = some (ctx, handed)) :
    ∀ name ∈ handed, ∃ result, replies name = .ok result ∧
      ctx.sagaResults.get? name = some result := by
  intro name hmem
  have hstored := stored_forward hrun
  obtain ⟨progress, fault⟩ := run
  cases fault with
  | none => cases hfailure
  | some fault =>
    cases fault with
    | cancelled => cases hfailure
    | exception error =>
      obtain ⟨hctx, hlist⟩ := Prod.mk.inj (Option.some.inj hfailure)
      rw [← hlist] at hmem
      rw [← hctx]
      exact hstored name hmem

theorem called_of_handed (hrun : forward asDict errors composition replies initialInput
      correlationId = .ok run)
    (hfailure : failure? run = some (ctx, handed)) {name : σ}
    (hmem : name ∈ handed) :
    name ∈ Progress.called run.1 ∧ (Succeeds replies name ∨
      ∃ before after, FirstFailure composition replies before name after) := by
  obtain ⟨earlier, before, failed, after, rest, hlayers, hsucceeds, hcalled,
    hend⟩ := failure_of_forward hrun hfailure
  have hbefore : name ∈ earlier.flatten ++ before →
      name ∈ Progress.called run.1 ∧ (Succeeds replies name ∨
        ∃ before after, FirstFailure composition replies before name after) := by
    intro hearlier
    refine ⟨?_, Or.inl (hsucceeds name hearlier)⟩
    rw [hcalled, ← append_assoc]
    exact mem_append_left _ hearlier
  rcases hend with ⟨_, hhanded⟩ | ⟨⟨result, hresult, hlost⟩, hhanded⟩
  · rw [hhanded] at hmem
    exact hbefore hmem
  · rw [hhanded, ← append_assoc] at hmem
    rcases mem_append.mp hmem with hearlier | hlast
    · exact hbefore hearlier
    · rw [mem_singleton.mp hlast, hcalled]
      refine ⟨by simp, Or.inr ⟨before, after, earlier, rest, hlayers,
        hsucceeds, not_succeeds_of_unsuccessful hresult hlost⟩⟩

theorem handed_of_firstFailure
    (hrun : forward asDict errors composition replies initialInput correlationId = .ok run)
    (hfailure : failure? run = some (ctx, handed))
    {before after : List σ} {failed : σ}
    (hfirst : FirstFailure composition replies before failed after)
    {result : SagaResult ι (Option W) E}
    (hreply : replies failed = .ok result) :
    failed ∈ handed ∧ result.success = false := by
  obtain ⟨earlier, start, lost, last, rest, hlayers, hsucceeds, _, hend⟩ :=
    failure_of_forward hrun hfailure
  rcases hend with ⟨⟨error, herror⟩, _⟩ | ⟨⟨other, hother, hlost⟩, hhanded⟩
  · have hsame := (hfirst.unique ⟨earlier, rest, hlayers, hsucceeds,
      not_succeeds_of_raised herror⟩).2.1
    rw [hsame, herror] at hreply
    cases hreply
  · have hsame := (hfirst.unique ⟨earlier, rest, hlayers, hsucceeds,
      not_succeeds_of_unsuccessful hother hlost⟩).2.1
    rw [hsame] at hreply ⊢
    rw [Except.ok.inj (hreply.symm.trans hother), hhanded]
    exact ⟨by simp, hlost⟩

end Handed

section Own

variable {request : SagaRequest} {name : σ} {saga : SagaDefinition ι}

omit [LinearOrder σ] [ToString σ] in
theorem phase_of_answers (hsaga : env.registry name = some saga)
    {result : SagaResult ι (Option W) E}
    (hanswers : env.Answers request name (.ok result)) :
    (env.run request name saga).state.phase = .finished (.returned result) := by
  unfold CompositionEnvironment.Answers at hanswers
  rw [hsaga] at hanswers
  obtain ⟨outcome, hphase, hreply⟩ := hanswers
  rw [hphase]
  cases outcome with
  | returned other => rw [Except.ok.inj hreply]
  | raised error => cases hreply
  | cancelled => cases hreply

omit [LinearOrder σ] [ToString σ] in
theorem ownInvocations_of_some (hsaga : env.registry name = some saga) (step : ι) :
    env.ownInvocations request name step =
      invocations step (env.run request name saga).trace := by
  unfold CompositionEnvironment.ownInvocations
  rw [hsaga]

omit [LinearOrder σ] [ToString σ] in
theorem ownInvocations_le (hpolicy : request.policy ≠ .retryWithBackoff)
    (hcalm : .cancelCaller ∉ env.schedule name)
    (hsucceed : ∀ saga, env.registry name = some saga →
      CompensationsSucceed (env.execution name) saga)
    {reply : SagaReply ι W E} (hanswers : env.Answers request name reply)
    (step : ι) : env.ownInvocations request name step ≤ 1 := by
  cases hregistered : env.registry name with
  | none =>
    unfold CompositionEnvironment.ownInvocations
    rw [hregistered]
    exact Nat.zero_le 1
  | some found =>
    unfold CompositionEnvironment.Answers at hanswers
    rw [hregistered] at hanswers
    obtain ⟨outcome, hphase, _⟩ := hanswers
    rw [ownInvocations_of_some hregistered]
    rcases invocations_of_finished hcalm hpolicy
      (hsucceed found hregistered) hphase with hzero | hdone
    · exact (hzero step).trans_le (Nat.zero_le 1)
    · refine (hdone step).trans_le ?_
      split
      · exact le_refl 1
      · exact Nat.zero_le 1

end Own

/-- In the runs of a composition whose compensations succeed, no compensation
is invoked twice exactly when the first failing saga leaves nothing `DONE` for
the policy of the composition to attempt. -/
theorem compensated_once_iff (hengine : ∀ name, .cancelCaller ∉ env.schedule name)
    (hmanager : ∀ name, .cancelCaller ∉ env.compensationSchedule name)
    (hsucceed : ∀ name saga, env.registry name = some saga →
      CompensationsSucceed (env.execution name) saga ∧
        CompensationsSucceed (env.compensation name) saga)
    {correlationId : String} {headers : Dict String String}
    {run : Progress σ ι W E × Option (Fault E)}
    (hrun : forward asDict errors composition replies initialInput correlationId = .ok run)
    (hanswers : ∀ name ∈ Progress.called run.1,
      env.Answers (compositorRequest correlationId headers) name (replies name))
    (hreturned : (env.managed composition run).outcome = .returned) :
    (∀ name step, compositionInvocations env
        (compositorRequest correlationId headers) composition run name step ≤ 1) ↔
      FailsClean env composition replies := by
  have hpolicy : (compositorRequest correlationId headers).policy ≠
      .retryWithBackoff := by simp [compositorRequest]
  generalize compositorRequest correlationId headers = request at *
  have hown : ∀ name ∈ Progress.called run.1, ∀ step,
      env.ownInvocations request name step ≤ 1 :=
    fun name hcalled => ownInvocations_le hpolicy (hengine name)
      (fun saga hsaga => (hsucceed name saga hsaga).1)
      (hanswers name hcalled)
  cases hfailure : failure? run with
  | none =>
    constructor
    · intro _ before failed after result saga hfirst hreply
      obtain ⟨ctx, handed, hsome⟩ :=
        failure_of_firstFailure hrun hfirst hreply
      rw [hfailure] at hsome
      cases hsome
    · intro _ name step
      have hnothing : managerInvocations name step (env.managed composition run).events =
            0 := by
        unfold CompositionEnvironment.managed
        rw [hfailure]
        rfl
      unfold compositionInvocations
      rw [hnothing]
      split
      · next hcalled => exact hown name hcalled step
      · exact Nat.zero_le 1
  | some failure =>
    obtain ⟨ctx, handed⟩ := failure
    have hmanaged : env.managed composition run =
        compensateCompleted env.access composition.compensationPolicy
          env.compensationSchedule handed ctx := by
      unfold CompositionEnvironment.managed
      rw [hfailure]
    unfold compositionInvocations
    rw [hmanaged] at hreturned ⊢
    have hnodup := handed_nodup hrun hfailure
    have hstored := stored_handed hrun hfailure
    constructor
    · intro honce before failed after result saga hfirst hreply hsaga step hstep hattempts
      obtain ⟨hmem, hlost⟩ :=
        handed_of_firstFailure hrun hfailure hfirst hreply
      have hcalled := (called_of_handed hrun hfailure hmem).1
      have hanswer := hanswers failed hcalled
      rw [hreply] at hanswer
      have hcompensable : saga.Compensable step := by
        obtain ⟨_, stepDef, hsome, _⟩ := hattempts
        exact SagaDefinition.compensable_of_some hsome
      have hownOne : env.ownInvocations request failed step = 1 := by
        rw [ownInvocations_of_some hsaga]
        exact (invocations_of_failed (hengine failed) hpolicy
          (hsucceed failed saga hsaga).1 (phase_of_answers hsaga hanswer)
          hlost step).trans (if_pos ⟨hstep, hcompensable⟩)
      obtain ⟨found, hfound, hget⟩ := hstored failed hmem
      have htotal := honce failed step
      rw [if_pos hcalled, hownOne] at htotal
      rcases managerInvocations_cases hnodup hmanager hreturned hmem hsaga
        (hsucceed failed saga hsaga).2 step with ⟨_, hone⟩ | ⟨hnot, _⟩
      · omega
      · rw [hget, ← Except.ok.inj (hreply.symm.trans hfound)] at hnot
        exact hnot ⟨hstep, hattempts⟩
    · intro hclean name step
      cases hsaga : env.registry name with
      | none =>
        have hnone := managerInvocations_unregistered hnodup hreturned hsaga step
        have hownZero : env.ownInvocations request name step = 0 := by
          unfold CompositionEnvironment.ownInvocations
          rw [hsaga]
        rw [hnone, hownZero]
        simp
      | some saga =>
        have hownLe : (if name ∈ Progress.called run.1 then
            env.ownInvocations request name step else 0) ≤ 1 := by
          split
          · next hcalled => exact hown name hcalled step
          · exact Nat.zero_le 1
        by_cases hmem : name ∈ handed
        · obtain ⟨result, hreply, hget⟩ := hstored name hmem
          obtain ⟨hcalled, hend⟩ :=
            called_of_handed hrun hfailure hmem
          rcases managerInvocations_cases hnodup hmanager hreturned hmem
            hsaga (hsucceed name saga hsaga).2 step with
            ⟨⟨hstep, hattempts⟩, hone⟩ | ⟨_, hzero⟩
          · -- the manager compensates: the saga itself has not
            rw [hget] at hstep
            rcases hend with hsucceeds | ⟨before, after, hfirst⟩
            · obtain ⟨other, hother, hsuccess⟩ := hsucceeds
              have hanswer := hanswers name hcalled
              rw [hother] at hanswer
              rw [if_pos hcalled, ownInvocations_of_some hsaga, hone]
              exact (congrArg (· + 1) (invocations_of_success
                (hengine name) (phase_of_answers hsaga hanswer) hsuccess
                step)).le
            · exact absurd hattempts (hclean before name after result
                saga hfirst hreply hsaga step hstep)
          · rw [hzero]
            exact hownLe
        · rw [managerInvocations_returned hnodup hreturned, if_neg hmem]
          exact hownLe

end Once

def chainEnvironment (failed : ℕ) (schedule : List (EnginePick ℕ)) :
    CompositionEnvironment ℕ ℕ Unit Unit where
  registry := fun _ => some chainSaga
  notRegistered := fun _ => ()
  execution := fun _ => .failing failed (some ()) ()
  schedule := fun _ => schedule
  compensation := fun _ => .obliging (some ()) ()
  compensationSchedule := fun _ => [.main 0]

def chainComposition : SagaComposition ℕ ℕ where
  name := "composition"
  entries := Dict.ofList [(0, ⟨0, [], []⟩)]
  compensationPolicy := .strictSequential

theorem chain_succeeds (failed : ℕ) (saga : SagaDefinition ℕ) :
    CompensationsSucceed (Environment.failing failed (some ()) ()) saga ∧
      CompensationsSucceed (Environment.obliging (some ()) ()) saga := by
  constructor
  · apply CompensationsSucceed.of_returns
    · exact ⟨by simp [Environment.failing, Environment.obliging],
        by simp [Environment.failing, Environment.obliging],
        by simp [Environment.failing, Environment.obliging]⟩
    · exact fun _ _ => ⟨some (), rfl⟩
  · apply CompensationsSucceed.of_returns
    · exact ⟨by simp [Environment.obliging], by simp [Environment.obliging],
        by simp [Environment.obliging]⟩
    · exact fun _ _ => ⟨some (), rfl⟩

open SagaCompositor

/-- The first step raises: nothing is `DONE`, and nothing is compensated. -/
theorem compensated_once_chain : let env := chainEnvironment 0 [.task 0, .task 0, .main 0]
    let request := compositorRequest "1" Dict.empty
    ∃ result run, env.Answers request 0 (.ok result) ∧
      forward (fun _ => none) unitErrors chainComposition
        (fun _ => .ok result) none "1" = .ok run ∧
      ((∀ name step, compositionInvocations env request chainComposition run name step ≤ 1) ↔
        FailsClean env chainComposition fun _ => .ok result) := by
  refine ⟨_, _, ⟨_, rfl, rfl⟩, rfl, ?_⟩
  apply compensated_once_iff
  · exact fun _ => by simp [chainEnvironment]
  · exact fun _ => by simp [chainEnvironment]
  · exact fun _ saga _ => chain_succeeds 0 saga
  · rfl
  · intro name hcalled
    exact ⟨_, rfl, rfl⟩
  · rfl

/-- The second step of a chain raises. -/
def brokenChain : CompositionEnvironment ℕ ℕ Unit Unit :=
  chainEnvironment 1 [.task 0, .task 0, .main 0, .task 1, .task 1, .main 0, .main 0]

/-- The engine compensates the first step, which stays `DONE`, and the manager
compensates it again. -/
theorem not_compensated_once : ∃ result run, forward (fun _ => none) unitErrors chainComposition
        (fun _ => .ok result) none "1" = .ok run ∧
      (∀ name ∈ Progress.called run.1, brokenChain.Answers
        (compositorRequest "1" Dict.empty) name (.ok result)) ∧
      (brokenChain.managed chainComposition run).outcome = .returned ∧
      compositionInvocations brokenChain (compositorRequest "1" Dict.empty)
        chainComposition run 0 0 = 2 := by
  have hown : brokenChain.ownInvocations (compositorRequest "1" Dict.empty) 0 0 = 1 := rfl
  have hruns : ∃ result, (brokenChain.run
        (compositorRequest "1" Dict.empty) 0 chainSaga).state.phase =
          .finished (.returned result) ∧
      ∃ run, forward (fun _ => none) unitErrors chainComposition
        (fun _ => .ok result) none "1" = .ok run ∧
      Progress.called run.1 = [0] ∧
      (brokenChain.managed chainComposition run).outcome = .returned ∧
      managerInvocations 0 0 (brokenChain.managed chainComposition run).events = 1 :=
    ⟨_, rfl, _, rfl, rfl, rfl, rfl⟩
  obtain ⟨result, hphase, run, hrun, hcalled, hreturned, hmanager⟩ := hruns
  refine ⟨result, run, hrun, ?_, hreturned, ?_⟩
  · intro name hmem
    rw [hcalled] at hmem
    rw [mem_singleton.mp hmem]
    exact ⟨_, hphase, rfl⟩
  · unfold compositionInvocations
    rw [hown, hmanager, hcalled]
    rfl

end PyFly.Saga
