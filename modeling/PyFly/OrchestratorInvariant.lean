import PyFly.ExecutionOrchestrator
import Mathlib.Data.List.Nodup
import Mathlib.Data.List.Pairwise
import Mathlib.Data.List.Rotate

/-!
# The invariant of the orchestrator

Every state an orchestration can reach agrees with its own trace: the context
holds what the step tasks have written, the loop position separates finished
layers from untouched ones, and the semaphore accounts for the tasks inside
it.
-/

namespace PyFly.Saga

open Library Transactional List

variable {ι V E : Type} [LinearOrder ι]

def history (step : ι) (trace : List (StepEvent ι V E)) : List (StepEffect ι V E) :=
  trace.filterMap fun event =>
    if event.1 = step then some event.2 else none

def summaryOf (step : ι) (trace : List (StepEvent ι V E)) : StepSummary :=
  StepSummary.initial.noteAll (history step trace)

theorem history_append (step : ι) (first second : List (StepEvent ι V E)) :
    history step (first ++ second) = history step first ++ history step second :=
  filterMap_append

theorem history_cons_self (step : ι) (effect : StepEffect ι V E)
    (trace : List (StepEvent ι V E)) :
    history step ((step, effect) :: trace) = effect :: history step trace := by
  simp [history]

variable {other : ι}

theorem history_cons_of_ne {step : ι} (hne : other ≠ step)
    (effect : StepEffect ι V E) (trace : List (StepEvent ι V E)) :
    history other ((step, effect) :: trace) = history other trace := by
  simp [history, Ne.symm hne]

theorem history_tagged_self (step : ι) (effects : List (StepEffect ι V E)) :
    history step (effects.map fun effect => (step, effect)) = effects := by
  induction effects with
  | nil => rfl
  | cons effect rest ih =>
    rw [map_cons, history_cons_self, ih]

theorem history_tagged_of_ne {step : ι} (hne : other ≠ step)
    (effects : List (StepEffect ι V E)) :
    history other (effects.map fun effect => (step, effect)) = [] := by
  induction effects with
  | nil => rfl
  | cons effect rest ih =>
    rw [map_cons, history_cons_of_ne hne, ih]

theorem mem_history {step : ι} {effect : StepEffect ι V E} {trace : List (StepEvent ι V E)} :
    effect ∈ history step trace ↔ (step, effect) ∈ trace := by
  unfold history
  rw [mem_filterMap]
  constructor
  · intro h
    obtain ⟨event, hmem, hevent⟩ := h
    by_cases hstep : event.1 = step
    · rw [if_pos hstep, Option.some.injEq] at hevent
      have hpair : event = (step, effect) := Prod.ext hstep hevent
      exact hpair ▸ hmem
    · rw [if_neg hstep] at hevent
      cases hevent
  · intro hmem
    exact ⟨(step, effect), hmem, if_pos rfl⟩

theorem summaryOf_append_self (step : ι) (trace : List (StepEvent ι V E))
    (effects : List (StepEffect ι V E)) :
    summaryOf step (trace ++ effects.map fun effect => (step, effect)) =
      (summaryOf step trace).noteAll effects := by
  unfold summaryOf
  rw [history_append, history_tagged_self, StepSummary.noteAll_append]

theorem summaryOf_append_of_ne {step : ι} (hne : other ≠ step)
    (trace : List (StepEvent ι V E)) (effects : List (StepEffect ι V E)) :
    summaryOf other (trace ++ effects.map fun effect => (step, effect)) =
      summaryOf other trace := by
  unfold summaryOf
  rw [history_append, history_tagged_of_ne hne, append_nil]

namespace Orchestration

section Absorption

variable (step : ι) (config : Orchestration ι V E)
variable (effects : List (StepEffect ι V E))

theorem absorb_frame (effect : StepEffect ι V E) :
    (absorb step config effect).tasks = config.tasks ∧
      (absorb step config effect).position = config.position ∧
      (absorb step config effect).main = config.main ∧
      (absorb step config effect).ctx.topologyLayers = config.ctx.topologyLayers := by
  cases effect <;> exact ⟨rfl, rfl, rfl, rfl⟩

theorem foldl_absorb_frame : (effects.foldl (absorb step) config).tasks = config.tasks ∧
      (effects.foldl (absorb step) config).position = config.position ∧
      (effects.foldl (absorb step) config).main = config.main ∧
      (effects.foldl (absorb step) config).ctx.topologyLayers = config.ctx.topologyLayers := by
  induction effects generalizing config with
  | nil => exact ⟨rfl, rfl, rfl, rfl⟩
  | cons effect rest ih =>
    obtain ⟨htasks, hposition, hmain, htopology⟩ :=
      absorb_frame step config effect
    obtain ⟨htasks', hposition', hmain', htopology'⟩ :=
      ih (absorb step config effect)
    rw [foldl_cons]
    exact ⟨htasks'.trans htasks, hposition'.trans hposition,
      hmain'.trans hmain, htopology'.trans htopology⟩

theorem foldl_absorb_layer : (effects.foldl (absorb step) config).layer = config.layer := by
  obtain ⟨_, hposition, _, htopology⟩ :=
    foldl_absorb_frame step config effects
  unfold layer
  rw [hposition, htopology]

theorem foldl_absorb_status_of_ne {other : ι} (hne : other ≠ step) :
    (effects.foldl (absorb step) config).ctx.status? other = config.ctx.status? other := by
  induction effects generalizing config with
  | nil => rfl
  | cons effect rest ih =>
    rw [foldl_cons, ih]
    cases effect with
    | statusSet status => exact Dict.get?_set_of_ne hne status
    | _ => rfl

theorem foldl_absorb_status_self {summary : StepSummary}
    (hstatus : config.ctx.status? step = summary.status?) :
    (effects.foldl (absorb step) config).ctx.status? step =
      (summary.noteAll effects).status? := by
  induction effects generalizing config summary with
  | nil => exact hstatus
  | cons effect rest ih =>
    unfold StepSummary.noteAll
    rw [foldl_cons, foldl_cons]
    apply ih
    cases effect with
    | statusSet status => exact Dict.get?_set_self _ _ _
    | _ => exact hstatus

theorem foldl_absorb_completed :
    (effects.foldl (absorb step) config).completed = config.completed ++
        List.replicate (effects.countP StepEffect.isCompleted) step := by
  induction effects generalizing config with
  | nil => simp
  | cons effect rest ih =>
    rw [foldl_cons, ih, countP_cons]
    cases effect with
    | completed =>
      simp [absorb, StepEffect.isCompleted, replicate_succ]
    | _ => simp [absorb, StepEffect.isCompleted]

theorem foldl_absorb_permits_none (hnone : config.permits = none) :
    (effects.foldl (absorb step) config).permits = none := by
  induction effects generalizing config with
  | nil => exact hnone
  | cons effect rest ih =>
    rw [foldl_cons]
    apply ih
    cases effect <;> simp [absorb, hnone]

theorem foldl_absorb_permits_some {permits : ℕ} (hpermits : config.permits = some permits)
    (henough : effects.countP StepEffect.isEntered ≤ permits) :
    (effects.foldl (absorb step) config).permits =
      some (permits + effects.countP StepEffect.isLeft -
        effects.countP StepEffect.isEntered) := by
  induction effects generalizing config permits with
  | nil => simpa using hpermits
  | cons effect rest ih =>
    rw [foldl_cons, countP_cons, countP_cons]
    rw [countP_cons] at henough
    cases effect with
    | entered =>
      simp only [StepEffect.isEntered, if_true] at henough
      have hnext : (absorb step config (.entered : StepEffect ι V E)).permits =
            some (permits - 1) := by
        simp [absorb, hpermits]
      rw [ih _ hnext (by omega)]
      simp only [StepEffect.isEntered, StepEffect.isLeft, if_true,
        Bool.false_eq_true, if_false, Option.some.injEq]
      omega
    | left =>
      simp only [StepEffect.isEntered, Bool.false_eq_true, if_false]
        at henough
      have hnext : (absorb step config
          (.left : StepEffect ι V E)).permits = some (permits + 1) := by
        simp [absorb, hpermits]
      rw [ih _ hnext (by omega)]
      simp only [StepEffect.isEntered, StepEffect.isLeft, if_true,
        Bool.false_eq_true, if_false, Option.some.injEq]
      omega
    | _ =>
      simp only [StepEffect.isEntered, Bool.false_eq_true, if_false]
        at henough
      exact ih (absorb step config _) hpermits (by omega)

theorem foldl_absorb_threads (hnone : effects.countP StepEffect.isThreadAbandoned = 0) :
    (effects.foldl (absorb step) config).threads = config.threads := by
  induction effects generalizing config with
  | nil => rfl
  | cons effect rest ih =>
    rw [countP_cons] at hnone
    rw [foldl_cons, ih _ (by omega)]
    cases effect with
    | threadAbandoned attempt => simp [StepEffect.isThreadAbandoned] at hnone
    | _ => rfl

theorem foldl_absorb_statusKeys : ∃ added : List ι,
      (effects.foldl (absorb step) config).ctx.stepStatuses.keys =
        config.ctx.stepStatuses.keys ++ added ∧
      ∀ key ∈ added, key = step := by
  induction effects generalizing config with
  | nil => exact ⟨[], by simp, by simp⟩
  | cons effect rest ih =>
    obtain ⟨added, hkeys, hadded⟩ := ih (absorb step config effect)
    rw [foldl_cons, hkeys]
    cases effect with
    | statusSet status =>
      by_cases hmem : step ∈ config.ctx.stepStatuses.keys
      · refine ⟨added, ?_, hadded⟩
        rw [show (absorb step config (.statusSet status)).ctx.stepStatuses =
          config.ctx.stepStatuses.set step status from rfl,
          Dict.keys_set_of_mem hmem]
      · refine ⟨step :: added, ?_, ?_⟩
        · rw [show (absorb step config (.statusSet status)).ctx.stepStatuses =
            config.ctx.stepStatuses.set step status from rfl,
            Dict.keys_set_of_notMem hmem, append_assoc]
          rfl
        · intro key hkey
          rcases mem_cons.mp hkey with hself | hrest
          · exact hself
          · exact hadded key hrest
    | _ => exact ⟨added, rfl, hadded⟩

end Absorption

theorem resumeTask_eq_some {saga : SagaDefinition ι} {env : Environment ι V E} {step : ι}
    {config next : Orchestration ι V E} {events : List (StepEvent ι V E)}
    (h : config.resumeTask saga env step = some (next, events)) :
    ∃ stepDef task effects, saga.steps.get? step = some stepDef ∧
      (config.tasks step).resume env stepDef config.available = some (task, effects) ∧
      events = effects.map (fun effect => (step, effect)) ∧
      next = effects.foldl (absorb step)
        { config with tasks := Function.update config.tasks step task } := by
  unfold resumeTask at h
  cases hget : saga.steps.get? step with
  | none =>
    rw [hget] at h
    cases h
  | some stepDef =>
    rw [hget] at h
    dsimp only at h
    cases hresume : (config.tasks step).resume env stepDef config.available with
    | none =>
      rw [hresume] at h
      cases h
    | some result =>
      rw [hresume] at h
      simp only [Option.some.injEq, Prod.mk.injEq] at h
      exact ⟨stepDef, result.1, result.2, rfl, hresume, h.2.symm, h.1.symm⟩

theorem resumeTask_cases {saga : SagaDefinition ι} {env : Environment ι V E} {step : ι}
    {config next : Orchestration ι V E} {events : List (StepEvent ι V E)}
    (h : config.resumeTask saga env step = some (next, events)) :
    ∃ stepDef task effects, saga.steps.get? step = some stepDef ∧
      (config.tasks step).Transition env stepDef config.available task effects ∧
      events = effects.map (fun effect => (step, effect)) ∧
      next = effects.foldl (absorb step)
        { config with tasks := Function.update config.tasks step task } := by
  obtain ⟨stepDef, task, effects, hget, hresume, hevents, hnext⟩ :=
    resumeTask_eq_some h
  exact ⟨stepDef, task, effects, hget, StepTask.transition_of_resume hresume, hevents, hnext⟩

theorem mem_of_rotate_eq_cons {failures rest : List E} {choice : ℕ}
    {error : E} (h : failures.rotate choice = error :: rest) :
    error ∈ failures := by
  have hmem : error ∈ failures.rotate choice := by
    rw [h]
    exact mem_cons_self
  exact mem_rotate.mp hmem

theorem resumeMain_cases {saga : SagaDefinition ι} {choice : ℕ}
    {config next : Orchestration ι V E}
    (h : config.resumeMain saga choice = some next) :
    (∃ error pending, config.main = .waiting ∧ (∃ step ∈ config.layer,
        (config.tasks step).phase = .ended (.raised error)) ∧
      pending = config.layer.filter (fun step =>
        !(config.tasks step).phase.isEnded) ∧
      ((pending = [] ∧ next = { config with main := .raised error }) ∨
        (pending ≠ [] ∧ next = { config with
          main := .draining error
          tasks := requestCancel pending config.tasks }))) ∨
    (config.main = .waiting ∧ (∀ step ∈ config.layer,
        (config.tasks step).phase = .ended .returned) ∧
      next = openLayer saga (config.position + 1) config) ∨
    (∃ error, config.main = .draining error ∧
      (∀ step ∈ config.layer, (config.tasks step).phase.isEnded = true) ∧
      next = { config with main := .raised error }) := by
  unfold resumeMain at h
  cases hmain : config.main with
  | waiting =>
    rw [hmain] at h
    dsimp only at h
    split at h
    · next error rest hrotate =>
        left
        obtain ⟨failed, hmem, hexception⟩ :=
          mem_filterMap.mp (mem_of_rotate_eq_cons hrotate)
        refine ⟨error, _, rfl, ⟨failed, hmem,
          TaskPhase.exception_eq_some.mp hexception⟩, rfl, ?_⟩
        split at h
        · next hpending => exact Or.inl ⟨hpending, (Option.some.inj h).symm⟩
        · next hpending => exact Or.inr ⟨hpending, (Option.some.inj h).symm⟩
    · split at h
      · next hall =>
          right
          left
          refine ⟨rfl, ?_, (Option.some.inj h).symm⟩
          intro step hmem
          exact TaskPhase.isReturned_iff.mp (all_eq_true.mp hall step hmem)
      · cases h
  | draining error =>
    rw [hmain] at h
    dsimp only at h
    split at h
    · next hall =>
        right
        right
        exact ⟨error, rfl, fun step hmem => all_eq_true.mp hall step hmem,
          (Option.some.inj h).symm⟩
    · cases h
  | returned =>
    rw [hmain] at h
    cases h
  | raised error =>
    rw [hmain] at h
    cases h
  | cancelled =>
    rw [hmain] at h
    cases h

omit [LinearOrder ι] in
theorem cancelCaller_cases {config next : Orchestration ι V E}
    (h : config.cancelCaller = some next) :
    (config.main = .waiting ∨ ∃ error, config.main = .draining error) ∧
      next = { config with main := .cancelled } := by
  unfold cancelCaller at h
  cases hmain : config.main with
  | waiting =>
    rw [hmain] at h
    exact ⟨Or.inl rfl, (Option.some.inj h).symm⟩
  | draining error =>
    rw [hmain] at h
    exact ⟨Or.inr ⟨error, rfl⟩, (Option.some.inj h).symm⟩
  | returned =>
    rw [hmain] at h
    cases h
  | raised error =>
    rw [hmain] at h
    cases h
  | cancelled =>
    rw [hmain] at h
    cases h

/-! ## The invariant -/

structure Invariant (saga : SagaDefinition ι) (env : Environment ι V E)
    (layers : List (List ι)) (config : Orchestration ι V E)
    (trace : List (StepEvent ι V E)) : Prop where
  topology : config.ctx.topologyLayers = layers
  status : ∀ step, config.ctx.status? step = (summaryOf step trace).status?
  record : ∀ step stepDef, saga.steps.get? step = some stepDef →
    TaskRecord env stepDef (summaryOf step trace) (config.tasks step).phase
  stranger : ∀ step, step ∉ layers.flatten →
    (config.tasks step).phase = .absent ∧ summaryOf step trace = .initial
  earlier : ∀ step ∈ layers.flatten, layerIndex layers step < config.position →
      (config.tasks step).phase = .ended .returned
  later : ∀ step, config.position < layerIndex layers step → (config.tasks step).phase = .absent
  current : ∀ step ∈ config.layer, (config.tasks step).phase ≠ .absent
  nodup_completed : config.completed.Nodup
  mem_completed : ∀ step, step ∈ config.completed ↔ (config.tasks step).phase.isReturned = true
  disturbed : ∀ step, (config.tasks step).cancelRequested = true ∨
    (config.tasks step).phase = .ended .cancelled → config.main.Disturbed
  failure : ∀ error, config.main = .draining error ∨ config.main = .raised error →
      ∃ step ∈ config.layer, (config.tasks step).phase = .ended (.raised error)
  settled : ∀ error, config.main = .raised error →
    ∀ step ∈ config.layer, (config.tasks step).phase.isEnded = true
  inLoop : config.main ≠ .returned → config.position < layers.length
  leftLoop : config.main = .returned → config.position = layers.length
  unlimited : saga.layerConcurrency ≤ 0 → config.permits = none
  limited : 0 < saga.layerConcurrency → ∃ permits,
    config.permits = some permits ∧ permits + config.layer.countP
        (fun step => (config.tasks step).phase.isInside) = saga.layerConcurrency.toNat
  keys : config.ctx.stepStatuses.keys.Pairwise fun first second =>
    layerIndex layers first ≤ layerIndex layers second

section Arrangement

variable {saga : SagaDefinition ι} {layers : List (List ι)}

theorem flatten_nodup (hlayers : computeLayers saga.deps = .ok layers) :
    layers.flatten.Nodup := by
  simpa using (computeLayers_layering hlayers).1.nodup

theorem mem_flatten_iff (hlayers : computeLayers saga.deps = .ok layers) {step : ι} :
    step ∈ layers.flatten ↔ ∃ stepDef, saga.steps.get? step = some stepDef := by
  rw [(computeLayers_layering hlayers).2.mem_iff, SagaDefinition.keys_deps,
    SagaDefinition.stepIds, Dict.mem_keys_iff]

theorem mem_layer_iff (hlayers : computeLayers saga.deps = .ok layers)
    {config : Orchestration ι V E}
    (htopology : config.ctx.topologyLayers = layers) {step : ι} :
    step ∈ config.layer ↔ step ∈ layers.flatten ∧ layerIndex layers step = config.position := by
  unfold layer
  rw [htopology]
  exact mem_getD_iff (flatten_nodup hlayers)

theorem layer_nodup (hlayers : computeLayers saga.deps = .ok layers)
    {config : Orchestration ι V E}
    (htopology : config.ctx.topologyLayers = layers) :
    config.layer.Nodup := by
  unfold layer
  rw [htopology]
  by_cases hposition : config.position < layers.length
  · rw [getD_eq_getElem _ _ hposition]
    exact (nodup_flatten.mp (flatten_nodup hlayers)).1 _ (getElem_mem hposition)
  · rw [getD_eq_default _ _ (Nat.le_of_not_lt hposition)]
    exact nodup_nil

end Arrangement

theorem countP_update (tasks : ι → StepTask E) {steps : List ι} {step : ι}
    (hnodup : steps.Nodup) (hmem : step ∈ steps) (task : StepTask E)
    (counted : StepTask E → Bool) :
    steps.countP (fun other => counted (Function.update tasks step task other)) +
        (counted (tasks step)).toNat =
      steps.countP (fun other => counted (tasks other)) + (counted task).toNat := by
  induction steps with
  | nil => cases hmem
  | cons first rest ih =>
    rw [countP_cons, countP_cons]
    rcases nodup_cons.mp hnodup with ⟨hfresh, hrest⟩
    by_cases hfirst : first = step
    · subst hfirst
      have hsame : rest.countP (fun other =>
          counted (Function.update tasks first task other)) =
            rest.countP fun other => counted (tasks other) := by
        apply countP_congr
        intro other hother
        have hne : other ≠ first := fun heq => hfresh (heq ▸ hother)
        rw [Function.update_of_ne hne]
      rw [hsame, Function.update_self]
      cases counted (tasks first) <;> cases counted task <;> simp
    · have hmemRest : step ∈ rest := by
        rcases mem_cons.mp hmem with heq | hother
        · exact absurd heq.symm hfirst
        · exact hother
      have hih := ih hrest hmemRest
      rw [Function.update_of_ne hfirst]
      omega

section TaskStep

variable {saga : SagaDefinition ι} {env : Environment ι V E}
variable {layers : List (List ι)} {config : Orchestration ι V E}
variable {trace : List (StepEvent ι V E)} {step : ι}
variable {stepDef : StepDefinition ι}

theorem Invariant.mem_layer_of_live (hlayers : computeLayers saga.deps = .ok layers)
    (hinv : Invariant saga env layers config trace)
    (hlive : (config.tasks step).phase = .created ∨ (config.tasks step).phase.isInside = true) :
    step ∈ config.layer := by
  have hphase : (config.tasks step).phase ≠ .absent ∧
      (config.tasks step).phase ≠ .ended .returned := by
    rcases hlive with hcreated | hinside
    · rw [hcreated]
      simp
    · constructor
      · intro heq
        rw [heq] at hinside
        cases hinside
      · intro heq
        rw [heq] at hinside
        cases hinside
  rw [mem_layer_iff hlayers hinv.topology]
  have hmem : step ∈ layers.flatten := by
    by_contra hnot
    exact hphase.1 (hinv.stranger step hnot).1
  refine ⟨hmem, Nat.le_antisymm ?_ ?_⟩
  · by_contra hlt
    exact hphase.1 (hinv.later step (by omega))
  · by_contra hlt
    exact hphase.2 (hinv.earlier step hmem (by omega))

theorem Invariant.status_of_absent (hlayers : computeLayers saga.deps = .ok layers)
    (hinv : Invariant saga env layers config trace)
    (habsent : (config.tasks step).phase = .absent) :
    config.ctx.status? step = none := by
  rw [hinv.status]
  by_cases hmem : step ∈ layers.flatten
  · obtain ⟨stepDef, hget⟩ := (mem_flatten_iff hlayers).mp hmem
    have hrecord := hinv.record step stepDef hget
    rw [habsent] at hrecord
    have hinitial : summaryOf step trace = .initial := hrecord
    rw [hinitial]
    rfl
  · rw [(hinv.stranger step hmem).2]
    rfl

theorem Invariant.layerIndex_le_of_key (hlayers : computeLayers saga.deps = .ok layers)
    (hinv : Invariant saga env layers config trace)
    (hkey : step ∈ config.ctx.stepStatuses.keys) :
    layerIndex layers step ≤ config.position := by
  by_contra hlt
  have hnone := hinv.status_of_absent hlayers (hinv.later step (Nat.lt_of_not_le hlt))
  obtain ⟨status, hstatus⟩ := Dict.mem_keys_iff.mp hkey
  unfold SagaContext.status? at hnone
  rw [hstatus] at hnone
  cases hnone

theorem Invariant.resumeTask (hlayers : computeLayers saga.deps = .ok layers)
    (hinv : Invariant saga env layers config trace)
    {next : Orchestration ι V E} {events : List (StepEvent ι V E)}
    (h : config.resumeTask saga env step = some (next, events)) :
    Invariant saga env layers next (trace ++ events) := by
  obtain ⟨stepDef, task, effects, hget, htransition, hevents, hnext⟩ :=
    resumeTask_cases h
  have hmemLayer := hinv.mem_layer_of_live hlayers htransition.live
  have hmemFlatten := ((mem_layer_iff hlayers hinv.topology).mp hmemLayer).1
  have hindex := ((mem_layer_iff hlayers hinv.topology).mp hmemLayer).2
  obtain ⟨htasks, hposition, hmain, htopology⟩ := foldl_absorb_frame step
    { config with tasks := Function.update config.tasks step task } effects
  have hlayer := foldl_absorb_layer step
    { config with tasks := Function.update config.tasks step task } effects
  rw [← hnext] at htasks hposition hmain htopology hlayer
  have hlayer' : next.layer = config.layer := hlayer
  have htasks' : next.tasks = Function.update config.tasks step task := htasks
  have htask : next.tasks step = task := by
    rw [htasks]
    exact Function.update_self _ _ _
  have hother : ∀ other, other ≠ step → next.tasks other = config.tasks other := by
    intro other hne
    rw [htasks]
    exact Function.update_of_ne hne _ _
  have hsummarySelf : summaryOf step (trace ++ events) =
      (summaryOf step trace).noteAll effects := by
    rw [hevents]
    exact summaryOf_append_self step trace effects
  have hsummaryOther : ∀ other, other ≠ step →
      summaryOf other (trace ++ events) = summaryOf other trace := by
    intro other hne
    rw [hevents]
    exact summaryOf_append_of_ne hne trace effects
  have hstarted := htransition.started
  have hnotReturned : (config.tasks step).phase.isReturned = false ∧
        (config.tasks step).phase.isEnded = false := by
    rcases htransition.live with hcreated | hinside
    · rw [hcreated]
      exact ⟨rfl, rfl⟩
    · cases hphase : (config.tasks step).phase with
      | ended outcome =>
        rw [hphase] at hinside
        cases hinside
      | _ => exact ⟨rfl, rfl⟩
  constructor
  · exact htopology.trans hinv.topology
  · intro other
    by_cases hsame : other = step
    · subst hsame
      rw [hsummarySelf, hnext]
      exact foldl_absorb_status_self other _ effects (hinv.status other)
    · rw [hsummaryOther other hsame, hnext, foldl_absorb_status_of_ne step _ effects hsame]
      exact hinv.status other
  · intro other otherDef hother'
    by_cases hsame : other = step
    · subst hsame
      rw [hget, Option.some.injEq] at hother'
      subst hother'
      rw [hsummarySelf, htask]
      exact (hinv.record other stepDef hget).transition htransition
    · rw [hsummaryOther other hsame, hother other hsame]
      exact hinv.record other otherDef hother'
  · intro other hnot
    have hne : other ≠ step := fun heq => hnot (heq ▸ hmemFlatten)
    rw [hsummaryOther other hne, hother other hne]
    exact hinv.stranger other hnot
  · intro other hmem hlt
    rw [hposition] at hlt
    have hne : other ≠ step := by
      intro heq
      rw [heq, hindex] at hlt
      exact Nat.lt_irrefl _ hlt
    rw [hother other hne]
    exact hinv.earlier other hmem hlt
  · intro other hlt
    rw [hposition] at hlt
    have hne : other ≠ step := by
      intro heq
      rw [heq, hindex] at hlt
      exact Nat.lt_irrefl _ hlt
    rw [hother other hne]
    exact hinv.later other hlt
  · intro other hmem
    rw [hlayer'] at hmem
    by_cases hsame : other = step
    · subst hsame
      rw [htask]
      rcases hstarted with hended | hinside
      · intro heq
        rw [heq] at hended
        cases hended
      · intro heq
        rw [heq] at hinside
        cases hinside
    · rw [hother other hsame]
      exact hinv.current other hmem
  · rw [hnext, foldl_absorb_completed, htransition.completed]
    cases task.phase.isReturned with
    | false => simpa using hinv.nodup_completed
    | true =>
      have hfresh : step ∉ config.completed := by
        rw [hinv.mem_completed, hnotReturned.1]
        exact Bool.false_ne_true
      simpa [concat_eq_append] using List.Nodup.concat hfresh hinv.nodup_completed
  · intro other
    rw [hnext, foldl_absorb_completed, htransition.completed, ← hnext,
      mem_append, mem_replicate]
    by_cases hsame : other = step
    · subst hsame
      rw [htask, hinv.mem_completed, hnotReturned.1]
      cases task.phase.isReturned <;> simp
    · rw [hother other hsame, hinv.mem_completed]
      simp [hsame]
  · intro other hdisturbed
    rw [hmain]
    by_cases hsame : other = step
    · subst hsame
      rw [htask] at hdisturbed
      rcases hdisturbed with hcancel | hended
      · rw [htransition.awake] at hcancel
        cases hcancel
      · exact hinv.disturbed other (Or.inl (htransition.cancel_requested hended))
    · rw [hother other hsame] at hdisturbed
      exact hinv.disturbed other hdisturbed
  · intro error hraised
    rw [hmain] at hraised
    obtain ⟨failed, hmem, hphase⟩ := hinv.failure error hraised
    have hne : failed ≠ step := by
      intro heq
      rw [heq] at hphase
      rw [hphase] at hnotReturned
      cases hnotReturned.2
    rw [hlayer']
    exact ⟨failed, hmem, by rw [hother failed hne]; exact hphase⟩
  · intro error hraised other hmem
    rw [hmain] at hraised
    rw [hlayer'] at hmem
    have hsettled := hinv.settled error hraised
    have hself := hsettled step hmemLayer
    rw [hnotReturned.2] at hself
    cases hself
  · intro hmain'
    rw [hposition]
    exact hinv.inLoop (by rw [← hmain]; exact hmain')
  · intro hmain'
    rw [hposition]
    exact hinv.leftLoop (by rw [← hmain]; exact hmain')
  · intro hlimit
    rw [hnext]
    exact foldl_absorb_permits_none step _ effects (hinv.unlimited hlimit)
  · intro hlimit
    obtain ⟨permits, hpermits, hcount⟩ := hinv.limited hlimit
    have hbalance := htransition.permits
    have hchange := countP_update config.tasks
      (layer_nodup hlayers hinv.topology) hmemLayer task
      fun task => task.phase.isInside
    have henough : effects.countP StepEffect.isEntered ≤ permits := by
      by_cases hentered : 0 < effects.countP StepEffect.isEntered
      · obtain ⟨havailable, hone⟩ := htransition.permit_available hentered
        rw [hone]
        unfold available at havailable
        rw [hpermits] at havailable
        exact of_decide_eq_true havailable
      · omega
    refine ⟨permits + effects.countP StepEffect.isLeft -
      effects.countP StepEffect.isEntered, ?_, ?_⟩
    · rw [hnext]
      exact foldl_absorb_permits_some step _ effects hpermits henough
    · rw [hlayer', htasks']
      omega
  · obtain ⟨added, hkeys, hadded⟩ := foldl_absorb_statusKeys step
      { config with tasks := Function.update config.tasks step task } effects
    rw [← hnext] at hkeys
    rw [hkeys, pairwise_append]
    refine ⟨hinv.keys, ?_, ?_⟩
    · rw [pairwise_iff_forall_sublist]
      intro first second hsublist
      have hfirst := hadded first (hsublist.subset (by simp))
      have hsecond := hadded second (hsublist.subset (by simp))
      rw [hfirst, hsecond]
    · intro key hkey fresh hfresh
      rw [hadded fresh hfresh, hindex]
      exact hinv.layerIndex_le_of_key hlayers hkey

end TaskStep

section LoopStep

variable {saga : SagaDefinition ι} {env : Environment ι V E}
variable {layers : List (List ι)} {config next : Orchestration ι V E}
variable {trace : List (StepEvent ι V E)}

omit [LinearOrder ι] in
theorem threadEnded_neutral (env : Environment ι V E) (step : ι)
    (attempt : ℕ) : StepSummary.Neutral (threadEnded env step attempt) := by
  intro summary
  unfold threadEnded
  cases (env.attempt step attempt).reply with
  | ok value => rfl
  | error error => rfl

theorem Invariant.finishThread (hinv : Invariant saga env layers config trace) {index : ℕ}
    {events : List (StepEvent ι V E)}
    (h : config.finishThread env index = some (next, events)) :
    Invariant saga env layers next (trace ++ events) := by
  unfold Orchestration.finishThread at h
  cases hthread : config.threads[index]? with
  | none =>
    rw [hthread] at h
    cases h
  | some thread =>
    rw [hthread] at h
    simp only [Option.some.injEq, Prod.mk.injEq] at h
    obtain ⟨hnext, hevents⟩ := h
    have hsummary : ∀ step, summaryOf step (trace ++ events) = summaryOf step trace := by
      intro step
      rw [← hevents]
      by_cases hstep : step = thread.1
      · subst hstep
        have hself := summaryOf_append_self thread.1 trace [threadEnded env thread.1 thread.2]
        rw [map_singleton] at hself
        rw [hself]
        exact threadEnded_neutral env thread.1 thread.2 _
      · exact summaryOf_append_of_ne hstep trace [_]
    subst hnext
    constructor
    · exact hinv.topology
    · intro step
      rw [hsummary]
      exact hinv.status step
    · intro step stepDef hget
      rw [hsummary]
      exact hinv.record step stepDef hget
    · intro step hnot
      rw [hsummary]
      exact hinv.stranger step hnot
    · exact hinv.earlier
    · exact hinv.later
    · exact hinv.current
    · exact hinv.nodup_completed
    · exact hinv.mem_completed
    · exact hinv.disturbed
    · exact hinv.failure
    · exact hinv.settled
    · exact hinv.inLoop
    · exact hinv.leftLoop
    · exact hinv.unlimited
    · exact hinv.limited
    · exact hinv.keys

theorem Invariant.cancelCaller (hinv : Invariant saga env layers config trace)
    (h : config.cancelCaller = some next) :
    Invariant saga env layers next trace := by
  obtain ⟨hcases, hnext⟩ := cancelCaller_cases h
  have hmain : config.main ≠ .returned := by
    rcases hcases with hwaiting | ⟨error, hdraining⟩
    · rw [hwaiting]
      simp
    · rw [hdraining]
      simp
  subst hnext
  exact {
    topology := hinv.topology
    status := hinv.status
    record := hinv.record
    stranger := hinv.stranger
    earlier := hinv.earlier
    later := hinv.later
    current := hinv.current
    nodup_completed := hinv.nodup_completed
    mem_completed := hinv.mem_completed
    disturbed := fun _ _ => trivial
    failure := by
      intro error hraised
      rcases hraised with hdraining | hraised
      · cases hdraining
      · cases hraised
    settled := by
      intro error hraised
      cases hraised
    inLoop := fun _ => hinv.inLoop hmain
    leftLoop := by
      intro hreturned
      cases hreturned
    unlimited := hinv.unlimited
    limited := hinv.limited
    keys := hinv.keys }

variable {layer : List ι}

theorem createTasks_of_mem {step : ι} {stepDef : StepDefinition ι}
    (hget : saga.steps.get? step = some stepDef) (hmem : step ∈ layer)
    (tasks : ι → StepTask E) :
    createTasks saga layer tasks step = ⟨.created, stepDef.backoffMs, false⟩ := by
  simp [createTasks, hget, hmem]

theorem createTasks_of_notMem {step : ι} (hnot : step ∉ layer) (tasks : ι → StepTask E) :
    createTasks saga layer tasks step = tasks step := by
  unfold createTasks
  cases saga.steps.get? step with
  | none => rfl
  | some stepDef => exact if_neg hnot

structure Boundary (saga : SagaDefinition ι) (env : Environment ι V E)
    (layers : List (List ι)) (position : ℕ)
    (config : Orchestration ι V E) (trace : List (StepEvent ι V E)) :
    Prop where
  topology : config.ctx.topologyLayers = layers
  status : ∀ step, config.ctx.status? step = (summaryOf step trace).status?
  record : ∀ step stepDef, saga.steps.get? step = some stepDef →
    TaskRecord env stepDef (summaryOf step trace) (config.tasks step).phase
  stranger : ∀ step, step ∉ layers.flatten →
    (config.tasks step).phase = .absent ∧ summaryOf step trace = .initial
  earlier : ∀ step ∈ layers.flatten, layerIndex layers step < position →
    (config.tasks step).phase = .ended .returned
  later : ∀ step, position ≤ layerIndex layers step → (config.tasks step).phase = .absent
  inRange : position ≤ layers.length
  nodup_completed : config.completed.Nodup
  mem_completed : ∀ step, step ∈ config.completed ↔ (config.tasks step).phase.isReturned = true
  undisturbed : ∀ step, (config.tasks step).cancelRequested = false ∧
    (config.tasks step).phase ≠ .ended .cancelled
  unlimited : saga.layerConcurrency ≤ 0 → config.permits = none
  limited : 0 < saga.layerConcurrency → config.permits = some saga.layerConcurrency.toNat
  keys : config.ctx.stepStatuses.keys.Pairwise fun first second =>
    layerIndex layers first ≤ layerIndex layers second

variable {position : ℕ}

theorem Boundary.leaveLoop (hboundary : Boundary saga env layers position config trace)
    (hlast : layers[position]? = none) :
    Invariant saga env layers
      { config with position := position, main := .returned } trace := by
  have hposition : position = layers.length :=
    Nat.le_antisymm hboundary.inRange (List.getElem?_eq_none_iff.mp hlast)
  have hlayer : ({ config with position := position, main := .returned } :
      Orchestration ι V E).layer = [] := by
    unfold layer
    rw [hboundary.topology]
    exact getD_eq_default _ _ (List.getElem?_eq_none_iff.mp hlast)
  exact {
    topology := hboundary.topology
    status := hboundary.status
    record := hboundary.record
    stranger := hboundary.stranger
    earlier := hboundary.earlier
    later := fun step hlt => hboundary.later step (Nat.le_of_lt hlt)
    current := by
      intro step hmem
      rw [hlayer] at hmem
      cases hmem
    nodup_completed := hboundary.nodup_completed
    mem_completed := hboundary.mem_completed
    disturbed := by
      intro step hdisturbed
      obtain ⟨hcancel, hphase⟩ := hboundary.undisturbed step
      rcases hdisturbed with hrequested | hended
      · rw [hcancel] at hrequested
        cases hrequested
      · exact absurd hended hphase
    failure := by
      intro error hraised
      rcases hraised with hraised | hraised
      · cases hraised
      · cases hraised
    settled := by
      intro error hraised
      cases hraised
    inLoop := fun hmain => absurd rfl hmain
    leftLoop := fun _ => hposition
    unlimited := hboundary.unlimited
    limited := by
      intro hlimit
      refine ⟨_, hboundary.limited hlimit, ?_⟩
      rw [hlayer]
      simp
    keys := hboundary.keys }

theorem Boundary.enterLayer (hlayers : computeLayers saga.deps = .ok layers)
    (hboundary : Boundary saga env layers position config trace)
    (hlayer : layers[position]? = some layer) :
    Invariant saga env layers { config with
        position := position
        main := .waiting
        tasks := createTasks saga layer config.tasks } trace := by
  obtain ⟨hposition, hget⟩ := List.getElem?_eq_some_iff.mp hlayer
  have hconfigLayer : ({ config with
      position := position
      main := .waiting
      tasks := createTasks saga layer config.tasks } : Orchestration ι V E).layer = layer := by
    unfold Orchestration.layer
    rw [hboundary.topology]
    exact (getD_eq_getElem _ _ hposition).trans hget
  have hindex : ∀ step, step ∈ layer →
      step ∈ layers.flatten ∧ layerIndex layers step = position := by
    intro step hmem
    refine ⟨mem_flatten.mpr ⟨layer, ?_, hmem⟩, ?_⟩
    · exact hget ▸ getElem_mem hposition
    · exact layerIndex_eq_of_mem (flatten_nodup hlayers) hposition (hget ▸ hmem)
  have hcreated : ∀ step ∈ layer, ∃ backoffMs, createTasks saga layer config.tasks step =
        ⟨.created, backoffMs, false⟩ := by
    intro step hmem
    obtain ⟨stepDef, hstepDef⟩ :=
      (mem_flatten_iff hlayers).mp (hindex step hmem).1
    exact ⟨_, createTasks_of_mem hstepDef hmem config.tasks⟩
  have habsent : ∀ step ∈ layer, (config.tasks step).phase = .absent := by
    intro step hmem
    exact hboundary.later step (Nat.le_of_eq (hindex step hmem).2.symm)
  exact {
    topology := hboundary.topology
    status := hboundary.status
    record := by
      intro step stepDef hstepDef
      dsimp only
      by_cases hmem : step ∈ layer
      · obtain ⟨backoffMs, htask⟩ := hcreated step hmem
        have hrecord := hboundary.record step stepDef hstepDef
        rw [habsent step hmem] at hrecord
        rw [htask]
        exact hrecord
      · rw [createTasks_of_notMem hmem]
        exact hboundary.record step stepDef hstepDef
    stranger := by
      intro step hnot
      dsimp only
      rw [createTasks_of_notMem fun hmem => hnot (hindex step hmem).1]
      exact hboundary.stranger step hnot
    earlier := by
      intro step hmem hlt
      dsimp only at hlt ⊢
      rw [createTasks_of_notMem fun hmem' => by
        have heq := (hindex step hmem').2
        omega]
      exact hboundary.earlier step hmem hlt
    later := by
      intro step hlt
      dsimp only at hlt ⊢
      rw [createTasks_of_notMem fun hmem => by
        have heq := (hindex step hmem).2
        omega]
      exact hboundary.later step (Nat.le_of_lt hlt)
    current := by
      intro step hmem
      rw [hconfigLayer] at hmem
      obtain ⟨backoffMs, htask⟩ := hcreated step hmem
      dsimp only
      rw [htask]
      simp
    nodup_completed := hboundary.nodup_completed
    mem_completed := by
      intro step
      dsimp only
      rw [hboundary.mem_completed]
      by_cases hmem : step ∈ layer
      · obtain ⟨backoffMs, htask⟩ := hcreated step hmem
        rw [htask, habsent step hmem]
        rfl
      · rw [createTasks_of_notMem hmem]
    disturbed := by
      intro step hdisturbed
      dsimp only at hdisturbed
      by_cases hmem : step ∈ layer
      · obtain ⟨backoffMs, htask⟩ := hcreated step hmem
        rw [htask] at hdisturbed
        rcases hdisturbed with hrequested | hended
        · cases hrequested
        · cases hended
      · rw [createTasks_of_notMem hmem] at hdisturbed
        obtain ⟨hcancel, hphase⟩ := hboundary.undisturbed step
        rcases hdisturbed with hrequested | hended
        · rw [hcancel] at hrequested
          cases hrequested
        · exact absurd hended hphase
    failure := by
      intro error hraised
      rcases hraised with hraised | hraised
      · cases hraised
      · cases hraised
    settled := by
      intro error hraised
      cases hraised
    inLoop := fun _ => hposition
    leftLoop := by
      intro hreturned
      cases hreturned
    unlimited := hboundary.unlimited
    limited := by
      intro hlimit
      refine ⟨_, hboundary.limited hlimit, ?_⟩
      rw [hconfigLayer]
      have hnone : layer.countP (fun step =>
          (createTasks saga layer config.tasks step).phase.isInside) = 0 := by
        rw [countP_eq_zero]
        intro step hmem
        obtain ⟨backoffMs, htask⟩ := hcreated step hmem
        rw [htask]
        exact Bool.false_ne_true
      dsimp only
      rw [hnone]
      exact Nat.add_zero _
    keys := hboundary.keys }

theorem Boundary.openLayer (hlayers : computeLayers saga.deps = .ok layers)
    (hboundary : Boundary saga env layers position config trace) :
    Invariant saga env layers (openLayer saga position config) trace := by
  unfold Orchestration.openLayer
  cases hlayer : config.ctx.topologyLayers[position]? with
  | none =>
    rw [hboundary.topology] at hlayer
    exact hboundary.leaveLoop hlayer
  | some layer =>
    rw [hboundary.topology] at hlayer
    exact hboundary.enterLayer hlayers hlayer

theorem Invariant.boundary (hlayers : computeLayers saga.deps = .ok layers)
    (hinv : Invariant saga env layers config trace)
    (hmain : config.main = .waiting)
    (hreturned : ∀ step ∈ config.layer, (config.tasks step).phase = .ended .returned) :
    Boundary saga env layers (config.position + 1) config trace where
  topology := hinv.topology
  status := hinv.status
  record := hinv.record
  stranger := hinv.stranger
  earlier := by
    intro step hmem hlt
    by_cases hindex : layerIndex layers step = config.position
    · exact hreturned step ((mem_layer_iff hlayers hinv.topology).mpr ⟨hmem, hindex⟩)
    · exact hinv.earlier step hmem (by omega)
  later := fun step hle => hinv.later step (by omega)
  inRange := hinv.inLoop (by rw [hmain]; simp)
  nodup_completed := hinv.nodup_completed
  mem_completed := hinv.mem_completed
  undisturbed := by
    intro step
    have hnot : ¬ config.main.Disturbed := by
      rw [hmain]
      exact fun h => h
    constructor
    · cases hcancel : (config.tasks step).cancelRequested with
      | false => rfl
      | true => exact absurd (hinv.disturbed step (Or.inl hcancel)) hnot
    · intro hended
      exact hnot (hinv.disturbed step (Or.inr hended))
  unlimited := hinv.unlimited
  limited := by
    intro hlimit
    obtain ⟨permits, hpermits, hcount⟩ := hinv.limited hlimit
    have hnone : config.layer.countP (fun step =>
        (config.tasks step).phase.isInside) = 0 := by
      rw [countP_eq_zero]
      intro step hmem
      rw [hreturned step hmem]
      exact Bool.false_ne_true
    rw [hnone, Nat.add_zero] at hcount
    rw [hpermits, hcount]
  keys := hinv.keys

theorem requestCancel_phase (steps : List ι) (tasks : ι → StepTask E)
    (step : ι) : (requestCancel steps tasks step).phase = (tasks step).phase := by
  unfold requestCancel
  split <;> rfl

/-- Asking tasks to stop, and remembering why, moves no program counter. -/
theorem Invariant.disturb (hinv : Invariant saga env layers config trace) (pending : List ι)
    (main : MainPhase E) (hdisturbed : main.Disturbed)
    (hloop : config.main ≠ .returned)
    (hfailure : ∀ error, main = .draining error ∨ main = .raised error →
      ∃ step ∈ config.layer, (config.tasks step).phase = .ended (.raised error))
    (hsettled : ∀ error, main = .raised error →
      ∀ step ∈ config.layer, (config.tasks step).phase.isEnded = true) :
    Invariant saga env layers { config with
        main := main
        tasks := requestCancel pending config.tasks } trace := by
  constructor
  · exact hinv.topology
  · exact hinv.status
  · intro step stepDef hget
    rw [requestCancel_phase]
    exact hinv.record step stepDef hget
  · intro step hnot
    rw [requestCancel_phase]
    exact hinv.stranger step hnot
  · intro step hmem hlt
    rw [requestCancel_phase]
    exact hinv.earlier step hmem hlt
  · intro step hlt
    rw [requestCancel_phase]
    exact hinv.later step hlt
  · intro step hmem
    rw [requestCancel_phase]
    exact hinv.current step hmem
  · exact hinv.nodup_completed
  · intro step
    rw [requestCancel_phase]
    exact hinv.mem_completed step
  · intro _ _
    exact hdisturbed
  · intro error hraised
    obtain ⟨step, hmem, hphase⟩ := hfailure error hraised
    refine ⟨step, hmem, ?_⟩
    rw [requestCancel_phase]
    exact hphase
  · intro error hraised step hmem
    rw [requestCancel_phase]
    exact hsettled error hraised step hmem
  · intro _
    exact hinv.inLoop hloop
  · intro hreturned
    dsimp only at hreturned
    rw [hreturned] at hdisturbed
    exact absurd hdisturbed fun h => h
  · exact hinv.unlimited
  · intro hlimit
    obtain ⟨permits, hpermits, hcount⟩ := hinv.limited hlimit
    refine ⟨permits, hpermits, ?_⟩
    rw [← hcount]
    congr 2
    funext step
    rw [requestCancel_phase]
  · exact hinv.keys

theorem requestCancel_nil (tasks : ι → StepTask E) : requestCancel [] tasks = tasks := by
  funext step
  simp [requestCancel]

theorem Invariant.resumeMain (hlayers : computeLayers saga.deps = .ok layers)
    (hinv : Invariant saga env layers config trace) {choice : ℕ}
    (h : config.resumeMain saga choice = some next) :
    Invariant saga env layers next trace := by
  have hraise : ∀ error, config.main ≠ .returned → (∃ step ∈ config.layer,
        (config.tasks step).phase = .ended (.raised error)) →
      (∀ step ∈ config.layer, (config.tasks step).phase.isEnded = true) →
      Invariant saga env layers { config with main := .raised error }
        trace := by
    intro error hloop hfailed hended
    have hnext := hinv.disturb [] (.raised error) trivial hloop (by
        intro other hother
        rcases hother with hdraining | hraised
        · cases hdraining
        · cases hraised
          exact hfailed)
      (fun _ _ => hended)
    rw [requestCancel_nil] at hnext
    exact hnext
  rcases resumeMain_cases h with
    ⟨error, pending, hmain, hfailed, hpending, hcases⟩ |
    ⟨hmain, hreturned, hnext⟩ | ⟨error, hmain, hended, hnext⟩
  · have hloop : config.main ≠ .returned := by
      rw [hmain]
      simp
    rcases hcases with ⟨hnil, hnext⟩ | ⟨_, hnext⟩
    · rw [hnext]
      apply hraise error hloop hfailed
      intro step hmem
      by_contra hnot
      have hlive : step ∈ pending := by
        rw [hpending, mem_filter]
        exact ⟨hmem, by simpa using hnot⟩
      rw [hnil] at hlive
      cases hlive
    · rw [hnext]
      apply hinv.disturb pending (.draining error) trivial hloop
      · intro other hother
        rcases hother with hdraining | hraised
        · cases hdraining
          exact hfailed
        · cases hraised
      · intro other hraised
        cases hraised
  · rw [hnext]
    exact (hinv.boundary hlayers hmain hreturned).openLayer hlayers
  · rw [hnext]
    exact hraise error (by rw [hmain]; simp) (hinv.failure error (Or.inl hmain))
      hended

theorem invariant_start (hlayers : computeLayers saga.deps = .ok layers)
    (ctx : SagaContext ι V E) (hctx : ctx.stepStatuses = Dict.empty) :
    Invariant saga env layers (start saga env ctx) [] := by
  unfold start
  rw [hlayers]
  apply Boundary.openLayer hlayers
  have hstatus : ∀ step, ctx.status? step = none := by
    intro step
    unfold SagaContext.status?
    rw [hctx]
    rfl
  exact {
    topology := rfl
    status := hstatus
    record := fun _ _ _ => rfl
    stranger := fun _ _ => ⟨rfl, rfl⟩
    earlier := by
      intro step _ hlt
      exact absurd hlt (Nat.not_lt_zero _)
    later := fun _ _ => rfl
    inRange := Nat.zero_le _
    nodup_completed := nodup_nil
    mem_completed := by
      intro step
      constructor
      · intro hmem
        cases hmem
      · intro hreturned
        cases hreturned
    undisturbed := by
      intro step
      constructor
      · rfl
      · intro hended
        cases hended
    unlimited := fun hlimit => if_neg (Int.not_lt.mpr hlimit)
    limited := fun hlimit => if_pos hlimit
    keys := by
      show List.Pairwise _ ctx.stepStatuses.keys
      rw [hctx]
      exact List.Pairwise.nil }

theorem Invariant.step (hlayers : computeLayers saga.deps = .ok layers)
    (hinv : Invariant saga env layers config trace)
    {pick : OrchestratorPick ι} {events : List (StepEvent ι V E)}
    (h : config.step saga env pick = some (next, events)) :
    Invariant saga env layers next (trace ++ events) := by
  cases pick with
  | main choice =>
    obtain ⟨moved, hmoved, heq⟩ := Option.map_eq_some_iff.mp h
    rw [Prod.mk.injEq] at heq
    rcases heq with ⟨rfl, rfl⟩
    rw [append_nil]
    exact hinv.resumeMain hlayers hmoved
  | task step => exact hinv.resumeTask hlayers h
  | thread index => exact hinv.finishThread h
  | cancelCaller =>
    obtain ⟨moved, hmoved, heq⟩ := Option.map_eq_some_iff.mp h
    rw [Prod.mk.injEq] at heq
    rcases heq with ⟨rfl, rfl⟩
    rw [append_nil]
    exact hinv.cancelCaller hmoved

end LoopStep

end Orchestration

theorem orchestrator_invariant {saga : SagaDefinition ι}
    {layers : List (List ι)} (hlayers : computeLayers saga.deps = .ok layers)
    (env : Environment ι V E) {ctx : SagaContext ι V E}
    (hctx : ctx.stepStatuses = Dict.empty)
    (schedule : List (OrchestratorPick ι)) :
    Orchestration.Invariant saga env layers ((orchestrator saga env).run
        (Orchestration.start saga env ctx) schedule).state
      ((orchestrator saga env).run (Orchestration.start saga env ctx) schedule).trace :=
  Machine.run_invariant (Orchestration.Invariant saga env layers)
    (Orchestration.invariant_start hlayers ctx hctx)
    (fun _ _ _ _ _ hinv hstep => hinv.step hlayers hstep) schedule

end PyFly.Saga
