import PyFly.OrchestratorInvariant
import Mathlib.Algebra.Order.BigOperators.Group.List
import Mathlib.Algebra.Order.Group.Nat

/-!
# What the orchestrator guarantees

The contract of `SagaExecutionOrchestrator.execute` over every schedule: the
order imposed by the dependencies, the bounds on attempts and on concurrency,
the state in which it returns or raises, and that it does one of the two.
-/

namespace PyFly.Saga

open Library Transactional List

variable {ι V E : Type} [LinearOrder ι]

namespace Orchestration

variable {saga : SagaDefinition ι} {env : Environment ι V E}
variable {layers : List (List ι)} {config next : Orchestration ι V E}
variable {trace events : List (StepEvent ι V E)}

theorem openLayer_threads (position : ℕ) (config : Orchestration ι V E) :
    (openLayer saga position config).threads = config.threads := by
  unfold openLayer
  cases config.ctx.topologyLayers[position]? with
  | none => rfl
  | some layer => rfl

theorem resumeMain_threads {choice : ℕ} (h : config.resumeMain saga choice = some next) :
    next.threads = config.threads := by
  rcases resumeMain_cases h with
    ⟨_, _, _, _, _, ⟨_, hnext⟩ | ⟨_, hnext⟩⟩ | ⟨_, _, hnext⟩ | ⟨_, _, _, hnext⟩
  · rw [hnext]
  · rw [hnext]
  · rw [hnext, openLayer_threads]
  · rw [hnext]

/-- Without `cpu_bound` steps no thread is ever left behind. -/
theorem no_threads_step (hcpu : saga.NoCpuBound)
    (hthreads : config.threads = []) {pick : OrchestratorPick ι}
    (h : config.step saga env pick = some (next, events)) :
    next.threads = [] := by
  cases pick with
  | main choice =>
    obtain ⟨moved, hmoved, heq⟩ := Option.map_eq_some_iff.mp h
    rw [Prod.mk.injEq] at heq
    rw [← heq.1, resumeMain_threads hmoved, hthreads]
  | task step =>
    obtain ⟨stepDef, task, effects, hget, htransition, _, hnext⟩ :=
      resumeTask_cases h
    rw [hnext, foldl_absorb_threads step _ effects
      (htransition.no_thread_abandoned (hcpu.offloaded hget))]
    exact hthreads
  | thread index =>
    unfold step finishThread at h
    rw [hthreads] at h
    cases h
  | cancelCaller =>
    obtain ⟨moved, hmoved, heq⟩ := Option.map_eq_some_iff.mp h
    rw [Prod.mk.injEq] at heq
    rw [← heq.1, (cancelCaller_cases hmoved).2]
    exact hthreads

/-! ## Termination -/

def taskRank (saga : SagaDefinition ι) (tasks : ι → StepTask E) (step : ι) : ℕ :=
  match saga.steps.get? step with
  | none => 0
  | some stepDef => (tasks step).phase.rank stepDef.maxRetries

def mainRank : MainPhase E → ℕ
  | .waiting => 2
  | .draining _ => 1
  | .returned | .raised _ | .cancelled => 0

/-- How many more steps the orchestration can take at most. -/
def rank (saga : SagaDefinition ι) (config : Orchestration ι V E) : ℕ :=
  (saga.stepIds.map (taskRank saga config.tasks)).sum + mainRank config.main

theorem taskRank_congr {tasks tasks' : ι → StepTask E} {step : ι}
    (hphase : (tasks' step).phase = (tasks step).phase) :
    taskRank saga tasks' step = taskRank saga tasks step := by
  unfold taskRank
  rw [hphase]

theorem mem_stepIds_of_get? {step : ι} {stepDef : StepDefinition ι}
    (hget : saga.steps.get? step = some stepDef) : step ∈ saga.stepIds :=
  Dict.mem_keys_of_get? hget

theorem rank_resumeTask_lt (hinv : Invariant saga env layers config trace) {step : ι}
    (h : config.resumeTask saga env step = some (next, events)) :
    rank saga next < rank saga config := by
  obtain ⟨stepDef, task, effects, hget, htransition, _, hnext⟩ :=
    resumeTask_cases h
  obtain ⟨htasks, _, hmain, _⟩ := foldl_absorb_frame step
    { config with tasks := Function.update config.tasks step task } effects
  rw [← hnext] at htasks hmain
  have hrecord := hinv.record step stepDef hget
  have hlower : task.phase.rank stepDef.maxRetries <
      (config.tasks step).phase.rank stepDef.maxRetries := by
    apply htransition.rank_lt
    intro attempt hphase
    rw [hphase] at hrecord
    exact hrecord.2.1
  have hself : taskRank saga next.tasks step < taskRank saga config.tasks step := by
    unfold taskRank
    rw [hget, htasks]
    simpa using hlower
  have hother : ∀ other ∈ saga.stepIds,
      taskRank saga next.tasks other ≤ taskRank saga config.tasks other := by
    intro other _
    by_cases hsame : other = step
    · rw [hsame]
      exact Nat.le_of_lt hself
    · apply Nat.le_of_eq
      apply taskRank_congr
      rw [htasks]
      exact congrArg _ (Function.update_of_ne hsame _ _)
  have hsum := sum_lt_sum _ _ hother ⟨step, mem_stepIds_of_get? hget, hself⟩
  unfold rank
  rw [hmain]
  exact Nat.add_lt_add_right hsum _

theorem rank_openLayer_lt (hlayers : computeLayers saga.deps = .ok layers) {position : ℕ}
    (hboundary : Boundary saga env layers position config trace)
    (hmain : config.main = .waiting) :
    rank saga (openLayer saga position config) < rank saga config := by
  unfold openLayer
  rw [hboundary.topology]
  cases hlayer : layers[position]? with
  | none =>
    unfold rank
    rw [hmain]
    exact Nat.lt_add_of_pos_right (Nat.zero_lt_two)
  | some layer =>
    obtain ⟨hposition, hget⟩ := List.getElem?_eq_some_iff.mp hlayer
    have hindex : ∀ step ∈ layer, step ∈ layers.flatten ∧
        layerIndex layers step = position := by
      intro step hmem
      refine ⟨mem_flatten.mpr ⟨layer, ?_, hmem⟩, ?_⟩
      · exact hget ▸ getElem_mem hposition
      · exact layerIndex_eq_of_mem (flatten_nodup hlayers) hposition (hget ▸ hmem)
    have hlower : ∀ step ∈ layer, taskRank saga (createTasks saga layer config.tasks) step <
          taskRank saga config.tasks step := by
      intro step hmem
      obtain ⟨stepDef, hstepDef⟩ :=
        (mem_flatten_iff hlayers).mp (hindex step hmem).1
      have habsent := hboundary.later step (Nat.le_of_eq (hindex step hmem).2.symm)
      unfold taskRank
      rw [hstepDef, createTasks_of_mem hstepDef hmem]
      dsimp only
      rw [habsent]
      simp [TaskPhase.rank]
    have hnonempty : layer ≠ [] :=
      (computeLayers_layering hlayers).1.nonempty layer (hget ▸ getElem_mem hposition)
    obtain ⟨first, hfirst⟩ := exists_mem_of_ne_nil layer hnonempty
    obtain ⟨firstDef, hfirstDef⟩ :=
      (mem_flatten_iff hlayers).mp (hindex first hfirst).1
    have hother : ∀ step ∈ saga.stepIds,
        taskRank saga (createTasks saga layer config.tasks) step ≤
          taskRank saga config.tasks step := by
      intro step _
      by_cases hmem : step ∈ layer
      · exact Nat.le_of_lt (hlower step hmem)
      · apply Nat.le_of_eq
        apply taskRank_congr
        rw [createTasks_of_notMem hmem]
    have hsum := sum_lt_sum _ _ hother
      ⟨first, mem_stepIds_of_get? hfirstDef, hlower first hfirst⟩
    unfold rank
    rw [hmain]
    exact Nat.add_lt_add_right hsum _

theorem rank_disturb_lt (pending : List ι) {main : MainPhase E}
    (hlower : mainRank main < mainRank config.main) :
    rank saga { config with
      main := main
      tasks := requestCancel pending config.tasks } < rank saga config := by
  have hsum : saga.stepIds.map (taskRank saga (requestCancel pending config.tasks)) =
        saga.stepIds.map (taskRank saga config.tasks) := by
    apply map_congr_left
    intro step _
    exact taskRank_congr (requestCancel_phase pending config.tasks step)
  unfold rank
  dsimp only
  rw [hsum]
  exact Nat.add_lt_add_left hlower _

theorem rank_main_lt {main : MainPhase E} (hlower : mainRank main < mainRank config.main) :
    rank saga { config with main := main } < rank saga config := by
  have hrank : rank saga { config with
      main := main
      tasks := requestCancel [] config.tasks } < rank saga config :=
    rank_disturb_lt [] hlower
  rw [requestCancel_nil] at hrank
  exact hrank

theorem rank_resumeMain_lt (hlayers : computeLayers saga.deps = .ok layers)
    (hinv : Invariant saga env layers config trace) {choice : ℕ}
    (h : config.resumeMain saga choice = some next) :
    rank saga next < rank saga config := by
  rcases resumeMain_cases h with
    ⟨error, pending, hmain, _, _, ⟨_, hnext⟩ | ⟨_, hnext⟩⟩ |
    ⟨hmain, hreturned, hnext⟩ | ⟨error, hmain, _, hnext⟩
  · rw [hnext]
    apply rank_main_lt
    rw [hmain]
    exact Nat.zero_lt_two
  · rw [hnext]
    apply rank_disturb_lt
    rw [hmain]
    exact Nat.one_lt_two
  · rw [hnext]
    exact rank_openLayer_lt hlayers (hinv.boundary hlayers hmain hreturned) hmain
  · rw [hnext]
    apply rank_main_lt
    rw [hmain]
    exact Nat.zero_lt_one

theorem rank_step_lt (hlayers : computeLayers saga.deps = .ok layers)
    (hinv : Invariant saga env layers config trace)
    (hthreads : config.threads = []) {pick : OrchestratorPick ι}
    (h : config.step saga env pick = some (next, events)) :
    rank saga next < rank saga config := by
  cases pick with
  | main choice =>
    obtain ⟨moved, hmoved, heq⟩ := Option.map_eq_some_iff.mp h
    rw [Prod.mk.injEq] at heq
    rw [← heq.1]
    exact rank_resumeMain_lt hlayers hinv hmoved
  | task step => exact rank_resumeTask_lt hinv h
  | thread index =>
    unfold step finishThread at h
    rw [hthreads] at h
    cases h
  | cancelCaller =>
    obtain ⟨moved, hmoved, heq⟩ := Option.map_eq_some_iff.mp h
    rw [Prod.mk.injEq] at heq
    obtain ⟨hmain, hnext⟩ := cancelCaller_cases hmoved
    rw [← heq.1, hnext]
    apply rank_main_lt
    rcases hmain with hwaiting | ⟨error, hdraining⟩
    · rw [hwaiting]
      exact Nat.zero_lt_two
    · rw [hdraining]
      exact Nat.zero_lt_one

theorem Invariant.resumeTask_progress (hlayers : computeLayers saga.deps = .ok layers)
    (hinv : Invariant saga env layers config trace) {step : ι}
    (hlive : (config.tasks step).phase = .created ∨ (config.tasks step).phase.isInside = true)
    (hpermit : (config.tasks step).phase = .created → config.available = true) :
    ∃ result, config.resumeTask saga env step = some result := by
  have hmem := hinv.mem_layer_of_live hlayers hlive
  obtain ⟨stepDef, hget⟩ := (mem_flatten_iff hlayers).mp
    ((mem_layer_iff hlayers hinv.topology).mp hmem).1
  have hrecord := hinv.record step stepDef hget
  have hevents : ∀ attempt, (config.tasks step).phase = .emittingSuccess attempt ∨
        (∃ error, (config.tasks step).phase = .emittingFailed attempt error) →
          env.events.isSome = true := by
    intro attempt hphase
    rcases hphase with hsuccess | ⟨error, hfailed⟩
    · rw [hsuccess] at hrecord
      exact hrecord.2.2
    · rw [hfailed] at hrecord
      exact hrecord.2.2
  obtain ⟨task, effects, hresume⟩ : ∃ task effects, (config.tasks step).resume env stepDef
        config.available = some (task, effects) :=
    StepTask.resume_progress hlive (fun hphase => Or.inr (hpermit hphase)) hevents
  unfold Orchestration.resumeTask
  rw [hget]
  dsimp only
  rw [hresume]
  exact ⟨_, rfl⟩

/-- While some task of the layer has not ended, some task can be resumed: a
task outside the semaphore can only be kept waiting by one inside. -/
theorem Invariant.exists_resumable (hlayers : computeLayers saga.deps = .ok layers)
    (hinv : Invariant saga env layers config trace)
    (hlive : ∃ step ∈ config.layer, (config.tasks step).phase.isEnded = false) :
    ∃ step result, config.resumeTask saga env step = some result := by
  by_cases hinside : ∃ step ∈ config.layer, (config.tasks step).phase.isInside = true
  · obtain ⟨step, _, hphase⟩ := hinside
    refine ⟨step, hinv.resumeTask_progress hlayers (Or.inr hphase) ?_⟩
    intro hcreated
    rw [hcreated] at hphase
    cases hphase
  · push Not at hinside
    obtain ⟨step, hmem, hended⟩ := hlive
    have hcreated : (config.tasks step).phase = .created := by
      have hcurrent := hinv.current step hmem
      have houtside := hinside step hmem
      cases hphase : (config.tasks step).phase with
      | absent => exact absurd hphase hcurrent
      | created => rfl
      | ended outcome =>
        rw [hphase] at hended
        cases hended
      | _ =>
        rw [hphase] at houtside
        exact absurd rfl houtside
    refine ⟨step, hinv.resumeTask_progress hlayers (Or.inl hcreated) ?_⟩
    intro _
    unfold available
    by_cases hlimit : 0 < saga.layerConcurrency
    · obtain ⟨permits, hpermits, hcount⟩ := hinv.limited hlimit
      have hnone : config.layer.countP (fun step =>
          (config.tasks step).phase.isInside) = 0 := by
        rw [countP_eq_zero]
        exact hinside
      rw [hpermits]
      simp only [decide_eq_true_eq]
      omega
    · rw [hinv.unlimited (Int.not_lt.mp hlimit)]

/-- As long as `execute` has not ended, it or one of its tasks can go on. -/
theorem Invariant.progress (hlayers : computeLayers saga.deps = .ok layers)
    (hinv : Invariant saga env layers config trace)
    (hmain : config.main = .waiting ∨ ∃ error, config.main = .draining error) :
    (∃ choice moved, config.resumeMain saga choice = some moved) ∨
      ∃ step result, config.resumeTask saga env step = some result := by
  by_cases hlive : ∃ step ∈ config.layer, (config.tasks step).phase.isEnded = false
  · exact Or.inr (hinv.exists_resumable hlayers hlive)
  · push Not at hlive
    have hended : ∀ step ∈ config.layer, (config.tasks step).phase.isEnded = true := by
      intro step hmem
      simpa using hlive step hmem
    left
    refine ⟨0, ?_⟩
    unfold Orchestration.resumeMain
    rcases hmain with hwaiting | ⟨error, hdraining⟩
    · rw [hwaiting]
      dsimp only
      rw [rotate_zero]
      split
      · split
        · exact ⟨_, rfl⟩
        · exact ⟨_, rfl⟩
      · next hnone =>
          rw [if_pos]
          · exact ⟨_, rfl⟩
          · rw [all_eq_true]
            intro step hmem
            have hquiet : ¬ config.main.Disturbed := by
              rw [hwaiting]
              exact fun h => h
            have hexception : (config.tasks step).phase.exception = none := by
              rw [filterMap_eq_nil_iff] at hnone
              exact hnone step hmem
            have hstep := hended step hmem
            cases hphase : (config.tasks step).phase with
            | ended outcome =>
              cases outcome with
              | returned => rfl
              | raised error =>
                rw [hphase] at hexception
                cases hexception
              | cancelled =>
                exact absurd (hinv.disturbed step (Or.inr hphase)) hquiet
            | _ =>
              rw [hphase] at hstep
              cases hstep
    · rw [hdraining]
      dsimp only
      rw [if_pos (all_eq_true.mpr hended)]
      exact ⟨_, rfl⟩

end Orchestration

/-! ## The contract -/

structure ExecutionContract (saga : SagaDefinition ι)
    (env : Environment ι V E)
    (execution : Execution (Orchestration ι V E) (StepEvent ι V E)) :
    Prop where
  /-- An attempt starts only when every transitive dependency is `DONE`. -/
  ordered : ∀ pick next events step attempt,
    execution.state.step saga env pick = some (next, events) →
    (step, .actionStarted attempt) ∈ events →
    ∀ dependency, Relation.TransGen saga.DependsOn dependency step →
      execution.state.ctx.status? dependency = some .done
  /-- Each action is invoked at most `max(retry, 1)` times. -/
  attempts : ∀ step stepDef, saga.steps.get? step = some stepDef →
    (history step execution.trace).countP StepEffect.isActionStarted ≤ stepDef.maxRetries
  /-- No more than `layer_concurrency` actions are in flight. -/
  concurrency : 0 < saga.layerConcurrency → (saga.stepIds.countP fun step =>
      (execution.state.tasks step).phase.isRunning) ≤ saga.layerConcurrency.toNat
  /-- A normal return lists every step exactly once, all of them `DONE`. -/
  returned : execution.state.main = .returned →
    execution.state.completed.Nodup ∧ execution.state.completed.Perm saga.stepIds ∧
      ∀ step ∈ saga.stepIds, execution.state.ctx.status? step = some .done
  /-- A raise leaves a `FAILED` step, nothing running, and every step of a
  later layer without a single `RUNNING`. -/
  raised : ∀ error, execution.state.main = .raised error →
    ∃ failed ∈ saga.stepIds, execution.state.ctx.status? failed = some .failed ∧
      (∀ step, (execution.state.tasks step).phase = .absent ∨
        (execution.state.tasks step).phase.isEnded = true) ∧
      execution.state.threads = [] ∧
      ∀ step, layerIndex execution.state.ctx.topologyLayers failed <
          layerIndex execution.state.ctx.topologyLayers step →
        (step, .statusSet .running) ∉ execution.trace
  notCancelled : execution.state.main ≠ .cancelled

/-- `execute` has returned or raised. -/
def Orchestration.Settled (config : Orchestration ι V E) : Prop :=
  config.main = .returned ∨ ∃ error, config.main = .raised error

namespace Orchestration

variable {saga : SagaDefinition ι} {env : Environment ι V E}
variable {layers : List (List ι)} {config next : Orchestration ι V E}
variable {trace events : List (StepEvent ι V E)}

theorem Invariant.status_done (hlayers : computeLayers saga.deps = .ok layers)
    (hinv : Invariant saga env layers config trace) {step : ι}
    (hmem : step ∈ layers.flatten)
    (hphase : (config.tasks step).phase = .ended .returned) :
    config.ctx.status? step = some .done := by
  obtain ⟨stepDef, hget⟩ := (mem_flatten_iff hlayers).mp hmem
  have hrecord := hinv.record step stepDef hget
  rw [hphase] at hrecord
  rw [hinv.status]
  exact hrecord.returned rfl

theorem Invariant.dependencies_done (hvalid : saga.Valid)
    (hlayers : computeLayers saga.deps = .ok layers)
    (hinv : Invariant saga env layers config trace) {step : ι}
    (hmem : step ∈ config.layer) {dependency : ι}
    (hdepends : Relation.TransGen saga.DependsOn dependency step) :
    config.ctx.status? dependency = some .done := by
  have hlt := layerIndex_lt_of_depends hlayers hdepends
  have hposition := ((mem_layer_iff hlayers hinv.topology).mp hmem).2
  have hdependency : dependency ∈ layers.flatten := by
    rw [(computeLayers_layering hlayers).2.mem_iff, SagaDefinition.keys_deps]
    exact mem_stepIds_of_depends hvalid hdepends
  apply hinv.status_done hlayers hdependency
  exact hinv.earlier dependency hdependency (by omega)

theorem Invariant.attempts_le (hinv : Invariant saga env layers config trace) {step : ι}
    {stepDef : StepDefinition ι}
    (hget : saga.steps.get? step = some stepDef) :
    (history step trace).countP StepEffect.isActionStarted ≤ stepDef.maxRetries := by
  have hcount : (summaryOf step trace).attempts =
      (history step trace).countP StepEffect.isActionStarted := by
    unfold summaryOf
    rw [StepSummary.noteAll_attempts]
    exact Nat.zero_add _
  rw [← hcount]
  have hrecord := hinv.record step stepDef hget
  cases hphase : (config.tasks step).phase with
  | absent =>
    rw [hphase] at hrecord
    have hinitial : summaryOf step trace = .initial := hrecord
    rw [hinitial]
    exact Nat.zero_le _
  | created =>
    rw [hphase] at hrecord
    have hinitial : summaryOf step trace = .initial := hrecord
    rw [hinitial]
    exact Nat.zero_le _
  | ended outcome =>
    rw [hphase] at hrecord
    exact hrecord.attempts
  | _ =>
    rw [hphase] at hrecord
    rw [hrecord.1.attempts]
    exact hrecord.1.bounded

theorem isInside_of_isRunning {phase : TaskPhase E}
    (hrunning : phase.isRunning = true) : phase.isInside = true := by
  cases phase with
  | running attempt => rfl
  | _ => cases hrunning

theorem Invariant.running_le (hlayers : computeLayers saga.deps = .ok layers)
    (hinv : Invariant saga env layers config trace)
    (hlimit : 0 < saga.layerConcurrency) :
    (saga.stepIds.countP fun step =>
      (config.tasks step).phase.isRunning) ≤ saga.layerConcurrency.toNat := by
  obtain ⟨permits, _, hcount⟩ := hinv.limited hlimit
  have hsubset : (saga.stepIds.filter fun step =>
      (config.tasks step).phase.isRunning) ⊆ config.layer.filter fun step =>
          (config.tasks step).phase.isInside := by
    intro step hmem
    obtain ⟨_, hrunning⟩ := mem_filter.mp hmem
    have hinside := isInside_of_isRunning hrunning
    rw [mem_filter]
    exact ⟨hinv.mem_layer_of_live hlayers (Or.inr hinside), hinside⟩
  have hle := (subperm_of_subset (saga.stepIds_nodup.filter _) hsubset).length_le
  rw [← countP_eq_length_filter, ← countP_eq_length_filter] at hle
  omega

theorem Invariant.returned_complete (hlayers : computeLayers saga.deps = .ok layers)
    (hinv : Invariant saga env layers config trace)
    (hmain : config.main = .returned) :
    config.completed.Perm saga.stepIds ∧
      ∀ step ∈ saga.stepIds, config.ctx.status? step = some .done := by
  have hperm : layers.flatten.Perm saga.stepIds := by
    rw [← SagaDefinition.keys_deps]
    exact (computeLayers_layering hlayers).2
  have hphase : ∀ step ∈ saga.stepIds, (config.tasks step).phase = .ended .returned := by
    intro step hmem
    have hflatten := hperm.mem_iff.mpr hmem
    apply hinv.earlier step hflatten
    rw [hinv.leftLoop hmain]
    exact layerIndex_lt_length hflatten
  constructor
  · rw [perm_ext_iff_of_nodup hinv.nodup_completed saga.stepIds_nodup]
    intro step
    rw [hinv.mem_completed]
    constructor
    · intro hreturned
      by_contra hnot
      have hstranger := hinv.stranger step fun hmem =>
        hnot (hperm.mem_iff.mp hmem)
      rw [hstranger.1] at hreturned
      cases hreturned
    · intro hmem
      rw [hphase step hmem]
      rfl
  · intro step hmem
    exact hinv.status_done hlayers (hperm.mem_iff.mpr hmem) (hphase step hmem)

theorem Invariant.raised_settled (hlayers : computeLayers saga.deps = .ok layers)
    (hinv : Invariant saga env layers config trace) {error : E}
    (hmain : config.main = .raised error) (step : ι) :
    (config.tasks step).phase = .absent ∨ (config.tasks step).phase.isEnded = true := by
  by_cases hmem : step ∈ layers.flatten
  · rcases Nat.lt_trichotomy (layerIndex layers step) config.position with
      hearlier | hcurrent | hlater
    · right
      rw [hinv.earlier step hmem hearlier]
      rfl
    · exact Or.inr (hinv.settled error hmain step
        ((mem_layer_iff hlayers hinv.topology).mpr ⟨hmem, hcurrent⟩))
    · exact Or.inl (hinv.later step hlater)
  · exact Or.inl (hinv.stranger step hmem).1

theorem Invariant.raised_failed (hlayers : computeLayers saga.deps = .ok layers)
    (hinv : Invariant saga env layers config trace) {error : E}
    (hmain : config.main = .raised error) :
    ∃ failed ∈ config.layer, failed ∈ saga.stepIds ∧
      config.ctx.status? failed = some .failed := by
  obtain ⟨failed, hmem, hphase⟩ := hinv.failure error (Or.inr hmain)
  obtain ⟨stepDef, hget⟩ := (mem_flatten_iff hlayers).mp
    ((mem_layer_iff hlayers hinv.topology).mp hmem).1
  have hrecord := hinv.record failed stepDef hget
  rw [hphase] at hrecord
  refine ⟨failed, hmem, mem_stepIds_of_get? hget, ?_⟩
  rw [hinv.status]
  exact hrecord.raised error rfl

theorem not_running_of_status_none {step : ι} (hnone : (summaryOf step trace).status? = none) :
    (step, .statusSet .running) ∉ trace := by
  intro hmem
  have hwritten : ∀ (summary : StepSummary) (effects : List (StepEffect ι V E)),
      (summary.status? ≠ none ∨ ∃ status, .statusSet status ∈ effects) →
      (summary.noteAll effects).status? ≠ none := by
    intro summary effects
    induction effects generalizing summary with
    | nil =>
      intro h
      rcases h with hsome | ⟨status, hmem⟩
      · exact hsome
      · cases hmem
    | cons effect rest ih =>
      intro h
      unfold StepSummary.noteAll
      rw [foldl_cons]
      apply ih (summary.note effect)
      cases effect with
      | statusSet written =>
        left
        simp [StepSummary.note]
      | _ =>
        rcases h with hsome | ⟨status, hmem⟩
        · exact Or.inl hsome
        · right
          rcases mem_cons.mp hmem with hhead | htail
          · cases hhead
          · exact ⟨status, htail⟩
  exact hwritten .initial (history step trace) (Or.inr ⟨.running, mem_history.mpr hmem⟩) hnone

end Orchestration

namespace Orchestration

variable {saga : SagaDefinition ι} {env : Environment ι V E}
variable {layers : List (List ι)} {config next : Orchestration ι V E}
variable {trace events : List (StepEvent ι V E)}

structure Undisturbed (saga : SagaDefinition ι) (env : Environment ι V E)
    (layers : List (List ι)) (config : Orchestration ι V E)
    (trace : List (StepEvent ι V E)) : Prop where
  invariant : Invariant saga env layers config trace
  threads : config.threads = []
  notCancelled : config.main ≠ .cancelled

theorem openLayer_main_ne_cancelled (position : ℕ) (config : Orchestration ι V E) :
    (openLayer saga position config).main ≠ .cancelled := by
  unfold openLayer
  cases config.ctx.topologyLayers[position]? with
  | none => simp
  | some layer => simp

theorem main_ne_cancelled_step {pick : OrchestratorPick ι}
    (hpick : pick ≠ .cancelCaller) (hmain : config.main ≠ .cancelled)
    (h : config.step saga env pick = some (next, events)) :
    next.main ≠ .cancelled := by
  cases pick with
  | main choice =>
    obtain ⟨moved, hmoved, heq⟩ := Option.map_eq_some_iff.mp h
    rw [Prod.mk.injEq] at heq
    rw [← heq.1]
    rcases resumeMain_cases hmoved with
      ⟨_, _, _, _, _, ⟨_, hnext⟩ | ⟨_, hnext⟩⟩ | ⟨_, _, hnext⟩ |
      ⟨_, _, _, hnext⟩
    · rw [hnext]
      simp
    · rw [hnext]
      simp
    · rw [hnext]
      exact openLayer_main_ne_cancelled _ _
    · rw [hnext]
      simp
  | task step =>
    obtain ⟨_, task, effects, _, _, _, hnext⟩ := resumeTask_cases h
    obtain ⟨_, _, hmain', _⟩ := foldl_absorb_frame step
      { config with tasks := Function.update config.tasks step task } effects
    rw [hnext, hmain']
    exact hmain
  | thread index =>
    unfold step finishThread at h
    dsimp only at h
    cases hthread : config.threads[index]? with
    | none =>
      rw [hthread] at h
      cases h
    | some thread =>
      rw [hthread] at h
      have hnext : { config with
          threads := config.threads.eraseIdx index } = next :=
        congrArg Prod.fst (Option.some.inj h)
      rw [← hnext]
      exact hmain
  | cancelCaller => exact absurd rfl hpick

theorem Undisturbed.step (hcpu : saga.NoCpuBound)
    (hlayers : computeLayers saga.deps = .ok layers)
    (h : Undisturbed saga env layers config trace)
    {pick : OrchestratorPick ι} (hpick : pick ≠ .cancelCaller)
    (hstep : config.step saga env pick = some (next, events)) :
    Undisturbed saga env layers next (trace ++ events) where
  invariant := h.invariant.step hlayers hstep
  threads := no_threads_step hcpu h.threads hstep
  notCancelled := main_ne_cancelled_step hpick h.notCancelled hstep

theorem undisturbed_start (hlayers : computeLayers saga.deps = .ok layers)
    (ctx : SagaContext ι V E) (hctx : ctx.stepStatuses = Dict.empty) :
    Undisturbed saga env layers (start saga env ctx) [] where
  invariant := invariant_start hlayers ctx hctx
  threads := by
    unfold start
    rw [hlayers]
    exact openLayer_threads _ _
  notCancelled := by
    unfold start
    rw [hlayers]
    exact openLayer_main_ne_cancelled _ _

theorem Undisturbed.settles (hcpu : saga.NoCpuBound)
    (hlayers : computeLayers saga.deps = .ok layers)
    (execution : Execution (Orchestration ι V E) (StepEvent ι V E))
    (h : Undisturbed saga env layers execution.state execution.trace) :
    ∃ more, (∀ pick ∈ more, pick ≠ .cancelCaller) ∧
      ((orchestrator saga env).runFrom execution more).state.Settled := by
  refine Machine.exists_schedule_to_final (Undisturbed saga env layers)
    Settled (fun pick => pick ≠ OrchestratorPick.cancelCaller) (rank saga) ?_ ?_ execution h
  · intro config trace pick next events hgood hpick hstep
    exact ⟨hgood.step hcpu hlayers hpick hstep,
      rank_step_lt hlayers hgood.invariant hgood.threads hstep⟩
  · intro config trace hgood hsettled
    have hmain : config.main = .waiting ∨ ∃ error, config.main = .draining error := by
      cases hphase : config.main with
      | waiting => exact Or.inl rfl
      | draining error => exact Or.inr ⟨error, rfl⟩
      | returned => exact absurd (Or.inl hphase) hsettled
      | raised error => exact absurd (Or.inr ⟨error, hphase⟩) hsettled
      | cancelled => exact absurd hphase hgood.notCancelled
    rcases hgood.invariant.progress hlayers hmain with
      ⟨choice, moved, hmoved⟩ | ⟨step, result, hresult⟩
    · refine ⟨.main choice, moved, [], by simp, ?_⟩
      exact Option.map_eq_some_iff.mpr ⟨moved, hmoved, rfl⟩
    · exact ⟨.task step, result.1, result.2, by simp, hresult⟩

theorem Undisturbed.contract (hvalid : saga.Valid)
    (hlayers : computeLayers saga.deps = .ok layers)
    (execution : Execution (Orchestration ι V E) (StepEvent ι V E))
    (h : Undisturbed saga env layers execution.state execution.trace) :
    ExecutionContract saga env execution where
  ordered := by
    intro pick next events step attempt hstep hmem dependency hdepends
    have hlayer : step ∈ execution.state.layer := by
      cases pick with
      | main choice =>
        obtain ⟨moved, _, heq⟩ := Option.map_eq_some_iff.mp hstep
        rw [Prod.mk.injEq] at heq
        rw [← heq.2] at hmem
        cases hmem
      | task resumed =>
        obtain ⟨_, task, effects, _, htransition, hevents, _⟩ :=
          resumeTask_cases hstep
        rw [hevents, mem_map] at hmem
        obtain ⟨effect, _, heq⟩ := hmem
        have hsame : resumed = step := congrArg Prod.fst heq
        rw [← hsame]
        exact h.invariant.mem_layer_of_live hlayers htransition.live
      | thread index =>
        unfold Orchestration.step finishThread at hstep
        rw [h.threads] at hstep
        cases hstep
      | cancelCaller =>
        obtain ⟨moved, _, heq⟩ := Option.map_eq_some_iff.mp hstep
        rw [Prod.mk.injEq] at heq
        rw [← heq.2] at hmem
        cases hmem
    exact h.invariant.dependencies_done hvalid hlayers hlayer hdepends
  attempts := fun _ _ hget => h.invariant.attempts_le hget
  concurrency := h.invariant.running_le hlayers
  returned := by
    intro hmain
    obtain ⟨hperm, hdone⟩ := h.invariant.returned_complete hlayers hmain
    exact ⟨h.invariant.nodup_completed, hperm, hdone⟩
  raised := by
    intro error hmain
    obtain ⟨failed, hlayer, hmem, hstatus⟩ :=
      h.invariant.raised_failed hlayers hmain
    refine ⟨failed, hmem, hstatus, h.invariant.raised_settled hlayers hmain, h.threads, ?_⟩
    intro step hlt
    rw [h.invariant.topology] at hlt
    have hposition :=
      ((mem_layer_iff hlayers h.invariant.topology).mp hlayer).2
    apply not_running_of_status_none
    rw [← h.invariant.status]
    apply h.invariant.status_of_absent hlayers
    exact h.invariant.later step (by omega)
  notCancelled := h.notCancelled

end Orchestration

def chainSaga : SagaDefinition ℕ :=
  .ofSteps "chain" [.reversible 0 [], .reversible 1 [0]]

theorem chainSaga_dependsOn {dependency step : ℕ} (h : chainSaga.DependsOn dependency step) :
    dependency = 0 ∧ step = 1 := by
  obtain ⟨stepDef, hget, hmem⟩ := h
  have hitem : (step, stepDef) ∈ chainSaga.steps.items :=
    Dict.get?_eq_some_iff.mp hget
  have hitems : chainSaga.steps.items = [(0, .reversible 0 []), (1, .reversible 1 [0])] := rfl
  rw [hitems] at hitem
  rcases mem_cons.mp hitem with hfirst | hrest
  · cases hfirst
    cases hmem
  · cases mem_singleton.mp hrest
    exact ⟨mem_singleton.mp hmem, rfl⟩

theorem chainSaga_valid : chainSaga.Valid where
  exist := by
    intro dependency step h
    rw [(chainSaga_dependsOn h).1]
    decide
  acyclic := by
    intro step hcycle
    have hlt : ∀ {first last : ℕ},
        Relation.TransGen chainSaga.DependsOn first last → first < last := by
      intro first last hpath
      induction hpath with
      | single h =>
        obtain ⟨hdependency, hstep⟩ := chainSaga_dependsOn h
        omega
      | tail _ h ih =>
        obtain ⟨hdependency, hstep⟩ := chainSaga_dependsOn h
        omega
    exact Nat.lt_irrefl step (hlt hcycle)

theorem chainSaga_noCpuBound : chainSaga.NoCpuBound := by
  intro step stepDef hget
  have hitem : (step, stepDef) ∈ chainSaga.steps.items :=
    Dict.get?_eq_some_iff.mp hget
  have hitems : chainSaga.steps.items = [(0, .reversible 0 []), (1, .reversible 1 [0])] := rfl
  rw [hitems] at hitem
  rcases mem_cons.mp hitem with hfirst | hrest
  · cases hfirst
    rfl
  · cases mem_singleton.mp hrest
    rfl

end PyFly.Saga
