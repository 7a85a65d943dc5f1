import PyFly.SagaCompositor
import PyFly.SagaEngine
import PyFly.CompensationRestores
import PyFly.OrchestratorContract

/-!
# The compensation manager

`CompensationManager.compensate_completed` goes through the sagas of a failed
composition in reverse and hands the `DONE` steps of each stored result to the
compensator of the engine, without topology layers.  The saga is appended to
`compensated_sagas` whether or not the compensator raises.
-/

namespace PyFly.Saga

open Library Transactional List

variable {σ ι W E : Type}

/-- What the manager uses of the engine: `_registry.get`, and the outcomes of
the calls its compensator makes for each saga. -/
structure EngineAccess (σ ι W E : Type) where
  registry : σ → Option (SagaDefinition ι)
  env : σ → Environment ι (Option W) E

inductive ManagerEvent (σ ι W E : Type)
  | compensation (saga : σ) (signal : CompensationSignal ι (Option W) E)
  | appended (saga : σ)

def ManagerEvent.saga : ManagerEvent σ ι W E → σ
  | .compensation saga _ => saga
  | .appended saga => saga

inductive ManagerOutcome
  | suspended
  | returned
  | cancelled

structure ManagerRun (σ ι W E : Type) where
  events : List (ManagerEvent σ ι W E)
  ctx : CompositionContext σ ι W E
  outcome : ManagerOutcome

def CompositionContext.appendCompensated (name : σ)
    (ctx : CompositionContext σ ι W E) : CompositionContext σ ι W E :=
  { ctx with compensatedSagas := ctx.compensatedSagas ++ [name] }

/-- The steps of a stored result whose status is `DONE`. -/
def completedStepIds : Option (SagaResult ι (Option W) E) → List ι
  | none => []
  | some result =>
    (result.steps.items.filter fun item =>
      item.2.status = StepStatus.done).map Prod.fst

namespace CompensationManager

section Definitions

variable [DecidableEq σ] [DecidableEq ι] (access : EngineAccess σ ι W E)
variable (policy : CompensationPolicy) (schedules : σ → List CrewPick)

/-- The call of `compensate` for a saga, unless there is nothing to
compensate.  The manager awaits one such call after the other, and each has a
schedule of its own. -/
def compensateSaga (ctx : CompositionContext σ ι W E) (name : σ) :
    Option (Execution (CompensationCrew ι (Option W) E) (CompensationSignal ι (Option W) E)) :=
  match access.registry name with
  | none => none
  | some saga =>
    let completed := completedStepIds (ctx.sagaResults.get? name)
    if completed.isEmpty then none
    else
      some (compensation (access.env name) saga policy completed [] (schedules name))

def compensateSagas : List σ → CompositionContext σ ι W E → ManagerRun σ ι W E
  | [], ctx => ⟨[], ctx, .returned⟩
  | name :: rest, ctx =>
    let proceed (events : List (ManagerEvent σ ι W E)) :
        ManagerRun σ ι W E :=
      let run := compensateSagas rest (ctx.appendCompensated name)
      { run with events := events ++ .appended name :: run.events }
    match compensateSaga access policy schedules ctx name with
    | none => proceed []
    | some execution =>
      let events := execution.trace.map (ManagerEvent.compensation name)
      match execution.state.main with
      | .await _ _ => ⟨events, ctx, .suspended⟩
      | .done (.error .cancelled) => ⟨events, ctx, .cancelled⟩
      | .done _ => proceed events

def compensateCompleted (completed : List σ)
    (ctx : CompositionContext σ ι W E) : ManagerRun σ ι W E :=
  compensateSagas access policy schedules completed.reverse ctx

end Definitions

section Contract

variable [DecidableEq σ] [DecidableEq ι]

def Due (access : EngineAccess σ ι W E) (ctx : CompositionContext σ ι W E)
    (name : σ) (step : ι) : Prop :=
  ∃ saga result outcome, access.registry name = some saga ∧
    ctx.sagaResults.get? name = some result ∧
    result.steps.get? step = some outcome ∧ outcome.status = .done ∧
    saga.Compensable step

def NoneRaises (events : List (ManagerEvent σ ι W E)) : Prop :=
  ∀ name stepDef attempt error, .compensation name (.answered (.invoke stepDef attempt)
      (.error (.exception error))) ∉ events

structure Fulfils (access : EngineAccess σ ι W E)
    (ctx : CompositionContext σ ι W E) (completed : List σ)
    (run : ManagerRun σ ι W E) : Prop where
  invoked : NoneRaises run.events → ∀ name ∈ completed, ∀ step,
    Due access ctx name step → ∃ stepDef attempt, stepDef.id = step ∧
      .compensation name (.issued (.invoke stepDef attempt)) ∈ run.events
  ordered : ∃ parts : σ → List (ManagerEvent σ ι W E),
    run.events = completed.reverse.flatMap parts ∧
      ∀ name, ∀ event ∈ parts name, event.saga = name
  recorded : ∀ name, .appended name ∈ run.events → ∀ step,
    Due access ctx name step → ∃ stepDef attempt value, stepDef.id = step ∧
      .compensation name (.answered (.invoke stepDef attempt) (.ok value)) ∈ run.events

end Contract

section Returned

variable [DecidableEq σ] [DecidableEq ι] {access : EngineAccess σ ι W E}
variable {policy : CompensationPolicy} {schedules : σ → List CrewPick}

def part (access : EngineAccess σ ι W E) (policy : CompensationPolicy)
    (schedules : σ → List CrewPick) (ctx : CompositionContext σ ι W E)
    (name : σ) : List (ManagerEvent σ ι W E) :=
  match compensateSaga access policy schedules ctx name with
  | none => [.appended name]
  | some execution =>
    execution.trace.map (ManagerEvent.compensation name) ++ [.appended name]

theorem part_saga (ctx : CompositionContext σ ι W E) (name : σ) :
    ∀ event ∈ part access policy schedules ctx name, event.saga = name := by
  intro event hmem
  unfold part at hmem
  split at hmem
  · rw [mem_singleton.mp hmem]
    rfl
  · rcases mem_append.mp hmem with htrace | happended
    · obtain ⟨signal, _, hsame⟩ := mem_map.mp htrace
      rw [← hsame]
      rfl
    · rw [mem_singleton.mp happended]
      rfl

theorem compensateSagas_returned {names : List σ} {ctx : CompositionContext σ ι W E}
    (hreturned : (compensateSagas access policy schedules names ctx).outcome = .returned) :
    (compensateSagas access policy schedules names ctx).events =
        names.flatMap (part access policy schedules ctx) ∧
      (compensateSagas access policy schedules names
        ctx).ctx.compensatedSagas = ctx.compensatedSagas ++ names ∧
      ∀ name ∈ names, ∀ execution,
        compensateSaga access policy schedules ctx name = some execution →
          execution.state.main.isDone = true := by
  induction names generalizing ctx with
  | nil =>
    refine ⟨rfl, (append_nil _).symm, ?_⟩
    intro name hmem
    cases hmem
  | cons name rest ih =>
    have hframe : ∀ other, compensateSaga access policy schedules
            (ctx.appendCompensated name) other =
          compensateSaga access policy schedules ctx other :=
      fun _ => rfl
    have hparts : part access policy schedules (ctx.appendCompensated name) =
          part access policy schedules ctx := rfl
    have hproceed : ∀ events : List (ManagerEvent σ ι W E),
        part access policy schedules ctx name = events ++ [.appended name] →
        (∀ execution, compensateSaga access policy schedules ctx name =
          some execution → execution.state.main.isDone = true) →
        (compensateSagas access policy schedules rest
          (ctx.appendCompensated name)).outcome = .returned →
        events ++ .appended name :: (compensateSagas access policy schedules rest
              (ctx.appendCompensated name)).events =
            (name :: rest).flatMap (part access policy schedules ctx) ∧
          (compensateSagas access policy schedules rest
            (ctx.appendCompensated name)).ctx.compensatedSagas =
              ctx.compensatedSagas ++ name :: rest ∧
          ∀ other ∈ name :: rest, ∀ execution,
            compensateSaga access policy schedules ctx other =
              some execution → execution.state.main.isDone = true := by
      intro events hpart hended hrest
      obtain ⟨hevents, hsagas, hall⟩ := ih hrest
      refine ⟨?_, ?_, ?_⟩
      · rw [hevents, hparts, flatMap_cons, hpart]
        simp
      · rw [hsagas]
        simp [CompositionContext.appendCompensated]
      · intro other hmem
        rcases mem_cons.mp hmem with hsame | hlater
        · rw [hsame]
          exact hended
        · intro execution hexecution
          exact hall other hlater execution hexecution
    unfold compensateSagas at hreturned ⊢
    cases hcall : compensateSaga access policy schedules ctx name with
    | none =>
      rw [hcall] at hreturned
      refine hproceed [] ?_ ?_ hreturned
      · unfold part
        rw [hcall]
        rfl
      · intro execution hexecution
        rw [hcall] at hexecution
        cases hexecution
    | some execution =>
      rw [hcall] at hreturned
      dsimp only at hreturned ⊢
      have hpart : part access policy schedules ctx name =
          execution.trace.map (ManagerEvent.compensation name) ++ [.appended name] := by
        unfold part
        rw [hcall]
      cases hmain : execution.state.main with
      | await query resume =>
        rw [hmain] at hreturned
        cases hreturned
      | done result =>
        have hended : ∀ other, compensateSaga access policy schedules
            ctx name = some other → other.state.main.isDone = true := by
          intro other hother
          rw [hcall] at hother
          rw [← Option.some.inj hother, hmain]
          rfl
        rw [hmain] at hreturned
        cases result with
        | ok value => exact hproceed _ hpart hended hreturned
        | error fault =>
          cases fault with
          | exception error =>
            exact hproceed _ hpart hended hreturned
          | cancelled => cases hreturned

theorem appended_mem_part {ctx : CompositionContext σ ι W E} {name other : σ} :
    .appended name ∈ part access policy schedules ctx other ↔ name = other := by
  unfold part
  split
  · simp
  · simp

theorem compensation_mem_part {ctx : CompositionContext σ ι W E}
    {name other : σ} {signal : CompensationSignal ι (Option W) E} :
    .compensation name signal ∈ part access policy schedules ctx other ↔
      name = other ∧ ∃ execution,
        compensateSaga access policy schedules ctx name = some execution ∧
          signal ∈ execution.trace := by
  unfold part
  constructor
  · intro hmem
    split at hmem
    · cases mem_singleton.mp hmem
    · rename_i execution hcall
      rcases mem_append.mp hmem with htrace | happended
      · obtain ⟨found, hfound, hsame⟩ := mem_map.mp htrace
        cases hsame
        exact ⟨rfl, execution, hcall, hfound⟩
      · cases mem_singleton.mp happended
  · intro h
    obtain ⟨hsame, execution, hcall, hmem⟩ := h
    rw [← hsame, hcall]
    exact mem_append_left _ (mem_map_of_mem hmem)

end Returned

section Due

variable [DecidableEq σ] [DecidableEq ι] {access : EngineAccess σ ι W E}
variable {ctx : CompositionContext σ ι W E}

omit [DecidableEq σ] [DecidableEq ι] in
theorem completedStepIds_nodup (stored : Option (SagaResult ι (Option W) E)) :
    (completedStepIds stored).Nodup := by
  cases stored with
  | none => exact nodup_nil
  | some result =>
    exact List.Nodup.sublist (filter_sublist.map Prod.fst) result.steps.nodupKeys

variable {step : ι}

omit [DecidableEq σ] in
theorem mem_completedStepIds {stored : Option (SagaResult ι (Option W) E)} :
    step ∈ completedStepIds stored ↔ ∃ result outcome,
      stored = some result ∧ result.steps.get? step = some outcome ∧
        outcome.status = .done := by
  cases stored with
  | none => simp [completedStepIds]
  | some result => simp [completedStepIds, Dict.get?_eq_some_iff]

variable {name : σ}

theorem due_iff {saga : SagaDefinition ι} (hsaga : access.registry name = some saga) :
    Due access ctx name step ↔ step ∈ completedStepIds (ctx.sagaResults.get? name) ∧
        saga.Compensable step := by
  rw [mem_completedStepIds]
  constructor
  · intro h
    obtain ⟨other, result, outcome, hother, hstored, hstep, hdone, hcompensable⟩ := h
    rw [hsaga] at hother
    cases hother
    exact ⟨⟨result, outcome, hstored, hstep, hdone⟩, hcompensable⟩
  · intro h
    obtain ⟨⟨result, outcome, hstored, hstep, hdone⟩, hcompensable⟩ := h
    exact ⟨saga, result, outcome, hsaga, hstored, hstep, hdone, hcompensable⟩

theorem compensateSaga_of_mem (policy : CompensationPolicy)
    (schedules : σ → List CrewPick) {saga : SagaDefinition ι}
    (hsaga : access.registry name = some saga)
    (hmem : step ∈ completedStepIds (ctx.sagaResults.get? name)) :
    compensateSaga access policy schedules ctx name =
      some (compensation (access.env name) saga policy
        (completedStepIds (ctx.sagaResults.get? name)) []
        (schedules name)) := by
  have hsome : (completedStepIds (ctx.sagaResults.get? name)).isEmpty = false := by
    cases hcompleted : completedStepIds (ctx.sagaResults.get? name) with
    | nil =>
      rw [hcompleted] at hmem
      cases hmem
    | cons first rest => rfl
  unfold compensateSaga
  rw [hsaga]
  dsimp only
  rw [if_neg (by simp [hsome])]

omit [DecidableEq σ] in
theorem loneFailure_of_no_layers {env : Environment ι (Option W) E}
    (saga : SagaDefinition ι) (completed : List ι) :
    LoneFailure env saga completed [] := by
  intro before layer after hsplit
  cases before with
  | nil => cases hsplit
  | cons first rest => cases hsplit

theorem issued_of_compensateSaga {policy : CompensationPolicy} {schedules : σ → List CrewPick}
    {execution : Execution (CompensationCrew ι (Option W) E)
      (CompensationSignal ι (Option W) E)}
    (hcall : compensateSaga access policy schedules ctx name =
      some execution) {query : CompensationQuery ι E}
    {reply : CompensationReply (Option W) E}
    (hmem : .answered query reply ∈ execution.trace) :
    .issued query ∈ execution.trace := by
  unfold compensateSaga at hcall
  split at hcall
  · cases hcall
  · dsimp only at hcall
    split at hcall
    · cases hcall
    · rw [← Option.some.inj hcall] at hmem ⊢
      exact issued_of_answered _ _ _ hmem

end Due

section Theorem

variable [DecidableEq σ] [DecidableEq ι] {access : EngineAccess σ ι W E}
variable {policy : CompensationPolicy} {schedules : σ → List CrewPick}
variable {ctx : CompositionContext σ ι W E} {completed : List σ}

theorem mem_compensateCompleted
    (hreturned : (compensateCompleted access policy schedules completed
      ctx).outcome = .returned) {event : ManagerEvent σ ι W E} :
    event ∈ (compensateCompleted access policy schedules completed ctx).events ↔
      ∃ name ∈ completed, event ∈ part access policy schedules ctx name := by
  unfold compensateCompleted at hreturned ⊢
  rw [(compensateSagas_returned hreturned).1, mem_flatMap]
  simp only [mem_reverse]

theorem recovered_iff (hcalm : ∀ name, .cancelCaller ∉ schedules name)
    (hreturned : (compensateCompleted access policy schedules completed
      ctx).outcome = .returned)
    {name : σ} (hname : name ∈ completed) {saga : SagaDefinition ι}
    (hsaga : access.registry name = some saga) {step : ι}
    (hstep : step ∈ completedStepIds (ctx.sagaResults.get? name)) :
    (∃ stepDef attempt value, stepDef.id = step ∧
        .compensation name (.answered (.invoke stepDef attempt)
          (.ok value)) ∈ (compensateCompleted access policy schedules completed ctx).events) ↔
      0 < (access.env name).compensationRules.weight
        (CompensationQuery.recovers (access.env name) step)
        ((Compensating.compensate (access.env name) saga policy
          (completedStepIds (ctx.sagaResults.get? name)) []).queries
            (access.env name).compensationAnswer) := by
  have hcall := compensateSaga_of_mem policy schedules hsaga hstep
  have hdone := (compensateSagas_returned hreturned).2.2 name (mem_reverse.mpr hname) _ hcall
  rw [← recovered_iff_weight
    (fun _ => loneFailure_of_no_layers saga (completedStepIds (ctx.sagaResults.get? name)))
    (hcalm name) hdone step]
  simp only [mem_compensateCompleted hreturned, compensation_mem_part, hcall,
    Option.some.injEq, exists_eq_left']
  constructor
  · intro h
    obtain ⟨stepDef, attempt, value, hid, other, _, _, hmem⟩ := h
    exact ⟨stepDef, attempt, value, hmem, hid⟩
  · intro h
    obtain ⟨stepDef, attempt, value, hmem, hid⟩ := h
    exact ⟨stepDef, attempt, value, hid, name, hname, rfl, hmem⟩

/-- `compensate_completed` keeps what it promises exactly when the policy
carries out, without layers, everything which is due. -/
theorem compensate_completed_iff (hcalm : ∀ name, .cancelCaller ∉ schedules name)
    (hreturned : (compensateCompleted access policy schedules completed
      ctx).outcome = .returned) :
    Fulfils access ctx completed (compensateCompleted access policy schedules completed ctx) ↔
      ∀ name ∈ completed, ∀ saga, access.registry name = some saga →
        Restores (access.env name) saga
          (completedStepIds (ctx.sagaResults.get? name)) policy := by
  have hsame : ∀ name ∈ completed, ∀ saga, access.registry name = some saga →
      ((∀ step, Due access ctx name step → ∃ stepDef attempt value, stepDef.id = step ∧
          .compensation name (.answered (.invoke stepDef attempt)
            (.ok value)) ∈ (compensateCompleted access policy schedules completed ctx).events) ↔
        Restores (access.env name) saga
          (completedStepIds (ctx.sagaResults.get? name)) policy) := by
    intro name hname saga hsaga
    rw [← restores_iff (completedStepIds_nodup _)]
    constructor
    · intro h step hstep hcompensable
      exact (recovered_iff hcalm hreturned hname hsaga hstep).mp
        (h step ((due_iff hsaga).mpr ⟨hstep, hcompensable⟩))
    · intro h step hdue
      obtain ⟨hstep, hcompensable⟩ := (due_iff hsaga).mp hdue
      exact (recovered_iff hcalm hreturned hname hsaga hstep).mpr (h step hstep hcompensable)
  constructor
  · intro hfulfils name hname saga hsaga
    apply (hsame name hname saga hsaga).mp
    apply hfulfils.recorded name
    exact (mem_compensateCompleted hreturned).mpr ⟨name, hname, appended_mem_part.mpr rfl⟩
  · intro hrestores
    have hrecovered : ∀ name ∈ completed, ∀ step, Due access ctx name step →
        ∃ stepDef attempt value, stepDef.id = step ∧
          .compensation name (.answered (.invoke stepDef attempt)
            (.ok value)) ∈ (compensateCompleted access policy schedules
              completed ctx).events := by
      intro name hname step hdue
      obtain ⟨saga, _, _, hsaga, _⟩ := id hdue
      exact (hsame name hname saga hsaga).mpr (hrestores name hname saga hsaga) step hdue
    constructor
    · intro _ name hname step hdue
      obtain ⟨stepDef, attempt, value, hid, hmem⟩ :=
        hrecovered name hname step hdue
      obtain ⟨other, hother, hpart⟩ :=
        (mem_compensateCompleted hreturned).mp hmem
      obtain ⟨hnames, execution, hcall, hanswered⟩ :=
        compensation_mem_part.mp hpart
      refine ⟨stepDef, attempt, hid,
        (mem_compensateCompleted hreturned).mpr ⟨other, hother, ?_⟩⟩
      apply compensation_mem_part.mpr
      exact ⟨hnames, execution, hcall, issued_of_compensateSaga hcall hanswered⟩
    · exact ⟨part access policy schedules ctx,
        (compensateSagas_returned hreturned).1, part_saga ctx⟩
    · intro name happended step hdue
      obtain ⟨other, hother, hpart⟩ :=
        (mem_compensateCompleted hreturned).mp happended
      rw [appended_mem_part.mp hpart] at hdue ⊢
      exact hrecovered other hother step hdue

end Theorem

def chainContext : CompositionContext ℕ ℕ Unit Unit :=
  let outcome : StepOutcome (Option Unit) Unit :=
    ⟨.done, 1, 0, none, none, false, 0, none, none⟩
  { CompositionContext.create "1" "composition" with
    sagaResults := Dict.ofList [(0, ⟨"chain", "1", 0, 0, true, none, Dict.empty,
        Dict.ofList [(0, outcome), (1, outcome)]⟩)] }

def chainAccess : EngineAccess ℕ ℕ Unit Unit where
  registry := fun _ => some chainSaga
  env := fun _ => .obliging (some ()) ()

/-- In sequence both steps of the chain are compensated. -/
theorem compensate_completed_chain : Fulfils chainAccess chainContext [0]
        (compensateCompleted chainAccess .strictSequential
          (fun _ => [.main 0, .main 0]) [0] chainContext) ↔
      ∀ name ∈ [0], ∀ saga, chainAccess.registry name = some saga →
        Restores (chainAccess.env name) saga
          (completedStepIds (chainContext.sagaResults.get? name))
          .strictSequential :=
  compensate_completed_iff (fun _ => by decide) rfl

/-- `GROUPED_PARALLEL` finds no layers: nothing is invoked, and the saga is
appended all the same. -/
theorem not_fulfils_of_grouped :
    (compensateCompleted chainAccess .groupedParallel (fun _ => []) [0]
        chainContext).outcome = .returned ∧
      NoneRaises (compensateCompleted chainAccess .groupedParallel
        (fun _ => []) [0] chainContext).events ∧
      Due chainAccess chainContext 0 1 ∧
      ¬ Fulfils chainAccess chainContext [0]
        (compensateCompleted chainAccess .groupedParallel (fun _ => []) [0] chainContext) := by
  have hevents : (compensateCompleted chainAccess .groupedParallel
      (fun _ => []) [0] chainContext).events = [.appended 0] := rfl
  have hdue : Due chainAccess chainContext 0 1 :=
    ⟨chainSaga, _, _, rfl, rfl, rfl, rfl, rfl⟩
  refine ⟨rfl, ?_, hdue, ?_⟩
  · intro name stepDef attempt error hmem
    rw [hevents] at hmem
    cases mem_singleton.mp hmem
  · intro hfulfils
    obtain ⟨stepDef, attempt, value, _, hmem⟩ := hfulfils.recorded 0
      (by rw [hevents]; exact mem_cons_self) 1 hdue
    rw [hevents] at hmem
    cases mem_singleton.mp hmem

end CompensationManager

end PyFly.Saga
