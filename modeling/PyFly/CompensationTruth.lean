import PyFly.EngineCompensation
import PyFly.ForwardContext

/-!
# What a result says about compensation

The fields of a `SagaResult` about compensation are read from dictionaries and
from statuses which nothing ever writes.  They are right exactly when no
compensation has come to an end.
-/

namespace PyFly.Saga

open Library Transactional Compensating List

variable {ι V E : Type}

section Endings

variable [DecidableEq ι]

def ending? (step : ι) : CompensationSignal ι V E → Option (Except E (Option V))
  | .answered (.invoke stepDef _) (.ok value) =>
    if stepDef.id = step then some (.ok value) else none
  | .answered (.invoke stepDef _) (.error (.exception error)) =>
    if stepDef.id = step then some (.error error) else none
  | _ => none

def endings (step : ι) (trace : List (EngineEvent ι V E)) : List (Except E (Option V)) :=
  (compensationSignals trace).filterMap (ending? step)

structure CompensationTruth (result : SagaResult ι V E)
    (trace : List (EngineEvent ι V E)) : Prop where
  compensated : ∀ step outcome, result.steps.get? step = some outcome →
    (outcome.compensated = true ↔ ∃ value, .ok value ∈ endings step trace)
  error : ∀ step outcome, result.steps.get? step = some outcome →
    outcome.compensationError = match (endings step trace).getLast? with
      | some (.error error) => some error
      | _ => none
  value : ∀ step outcome, result.steps.get? step = some outcome →
    outcome.compensationResult = match (endings step trace).getLast? with
      | some (.ok value) => value
      | _ => none
  listed : ∀ step, step ∈ result.compensatedSteps ↔
    ∃ outcome, result.steps.get? step = some outcome ∧ outcome.compensated = true

def Unended (saga : SagaDefinition ι) (trace : List (EngineEvent ι V E)) :
    Prop :=
  ∀ step ∈ saga.steps.keys, endings step trace = []

theorem truth_iff_unended {saga : SagaDefinition ι}
    {result : SagaResult ι V E} {trace : List (EngineEvent ι V E)}
    (hkeys : result.steps.keys = saga.steps.keys)
    (hsilent : ∀ step outcome, result.steps.get? step = some outcome →
      outcome.compensated = false ∧ outcome.compensationError = none ∧
        outcome.compensationResult = none ∧
        outcome.status ≠ .compensated) :
    CompensationTruth result trace ↔ Unended saga trace := by
  constructor
  · intro htruth step hstep
    rw [← hkeys] at hstep
    obtain ⟨outcome, houtcome⟩ := Dict.mem_keys_iff.mp hstep
    obtain ⟨hcompensated, herror, _, _⟩ := hsilent step outcome houtcome
    by_contra hne
    have hlast := List.getLast?_eq_some_getLast hne
    cases hend : (endings step trace).getLast hne with
    | ok value =>
      have hmem : .ok value ∈ endings step trace :=
        hend ▸ getLast_mem hne
      have htrue := (htruth.compensated step outcome houtcome).mpr ⟨value, hmem⟩
      rw [hcompensated] at htrue
      cases htrue
    | error error =>
      have hfield := htruth.error step outcome houtcome
      rw [hlast, hend, herror] at hfield
      cases hfield
  · intro hunended
    have hnone : ∀ step outcome, result.steps.get? step = some outcome →
        endings step trace = [] := by
      intro step outcome houtcome
      apply hunended step
      rw [← hkeys]
      exact Dict.mem_keys_of_get? houtcome
    constructor
    · intro step outcome houtcome
      rw [(hsilent step outcome houtcome).1, hnone step outcome houtcome]
      simp
    · intro step outcome houtcome
      rw [(hsilent step outcome houtcome).2.1, hnone step outcome houtcome]
      rfl
    · intro step outcome houtcome
      rw [(hsilent step outcome houtcome).2.2.1, hnone step outcome houtcome]
      rfl
    · intro step
      have hempty : step ∉ result.compensatedSteps := by
        intro hmem
        obtain ⟨item, hitem, hkey⟩ := mem_map.mp hmem
        obtain ⟨hitems, hstatus⟩ := mem_filter.mp hitem
        have hget : result.steps.get? item.1 = some item.2 :=
          Dict.get?_eq_some_iff.mpr hitems
        exact (hsilent item.1 item.2 hget).2.2.2 (of_decide_eq_true hstatus)
      constructor
      · exact fun hmem => absurd hmem hempty
      · intro h
        obtain ⟨outcome, houtcome, hcompensated⟩ := h
        rw [(hsilent step outcome houtcome).1] at hcompensated
        cases hcompensated

end Endings

section Opening

variable [DecidableEq ι] {env : Environment ι V E} {saga : SagaDefinition ι}

def Opens (saga : SagaDefinition ι) (step : ι) (query : CompensationQuery ι E) : Prop :=
  ∃ stepDef, saga.compensable? step = some stepDef ∧ (query = .invoke stepDef 0 ∨
      ∃ steps returnExceptions, query = .gather steps returnExceptions ∧ steps ≠ [] ∧
        ∀ other ∈ steps, saga.compensable? other.id = some other)

theorem not_tried_of_none {policy : CompensationPolicy} {step : ι}
    (hstep : saga.compensable? step = none) : ¬ Tried saga policy step := by
  intro h
  obtain ⟨stepDef, hsome, _⟩ := h
  rw [hstep] at hsome
  cases hsome

omit [DecidableEq ι] in
theorem head?_invokeOne (stepDef : StepDefinition ι) (attempt : ℕ)
    (raiseOnError skipErrorHandler : Bool) :
    Coroutine.head? (invokeOne env stepDef attempt raiseOnError
      skipErrorHandler) = some (.invoke stepDef attempt) :=
  rfl

omit [DecidableEq ι] in
theorem head?_retryOne {stepDef : StepDefinition ι}
    (hcount : 1 ≤ compensationMaxRetries stepDef) :
    Coroutine.head? (retryOne env stepDef) = some (.invoke stepDef 0) := by
  obtain ⟨more, hmore⟩ : ∃ more, (compensationMaxRetries stepDef).toNat = more + 1 :=
    ⟨(compensationMaxRetries stepDef).toNat - 1, by omega⟩
  unfold retryOne
  apply Async.head?_bind
  rw [hmore, retryAttempts]
  apply Async.head?_bind
  exact Async.head?_catching (Async.head?_bind (head?_invokeOne stepDef 0 true true) _) _

omit [DecidableEq ι] in
theorem retryOne_of_nonpos {stepDef : StepDefinition ι}
    (hcount : compensationMaxRetries stepDef ≤ 0) :
    (retryOne env stepDef : Compensating ι V E Unit) = pure () := by
  have hzero := Int.toNat_of_nonpos hcount
  unfold retryOne
  dsimp only
  rw [hzero]
  rfl

def Begins (saga : SagaDefinition ι) (policy : CompensationPolicy) (completed : List ι)
    (code : Compensating ι V E Unit) : Prop :=
  (code = pure () ∧ ∀ step ∈ completed, ¬ Tried saga policy step) ∨
    ∃ step ∈ completed, Tried saga policy step ∧ ∃ query,
      Coroutine.head? code = some query ∧ Opens saga step query

theorem begins_forEach {policy : CompensationPolicy} {completed : List ι}
    {body : ι → Compensating ι V E Unit}
    (hround : ∀ step, (body step = pure () ∧ ¬ Tried saga policy step) ∨
        (Tried saga policy step ∧ ∃ stepDef, saga.compensable? step = some stepDef ∧
          Coroutine.head? (body step) = some (.invoke stepDef 0))) :
    Begins saga policy completed (Async.forEach completed.reverse body) := by
  have hopens := @Async.forEach_opens _ _ _ _ body
    (fun step query => Tried saga policy step ∧ Opens saga step query)
    completed.reverse (by
      intro step _
      rcases hround step with ⟨hpure, _⟩ | ⟨htried, stepDef, hstep, hhead⟩
      · exact Or.inl hpure
      · exact Or.inr ⟨_, hhead, htried, stepDef, hstep, Or.inl rfl⟩)
  rcases hopens with ⟨hloop, hall⟩ | ⟨step, hmem, query, hhead, htried, hopens⟩
  · refine Or.inl ⟨hloop, ?_⟩
    intro step hmem
    rcases hround step with ⟨_, hnot⟩ | ⟨_, stepDef, _, hhead⟩
    · exact hnot
    · rw [hall step (mem_reverse.mpr hmem)] at hhead
      cases hhead
  · exact Or.inr ⟨step, mem_reverse.mp hmem, htried, query, hhead, hopens⟩

theorem begins_circuitBreakerLoop {steps : List ι} :
    Begins saga .circuitBreaker steps (circuitBreakerLoop env saga 0 steps) := by
  induction steps with
  | nil => exact Or.inl ⟨rfl, by simp⟩
  | cons step rest ih =>
    cases hstep : saga.compensable? step with
    | none =>
      have hloop : (circuitBreakerLoop env saga 0 (step :: rest) :
          Compensating ι V E Unit) = circuitBreakerLoop env saga 0 rest := by
        rw [circuitBreakerLoop, if_neg (by decide), hstep]
      rw [hloop]
      rcases ih with ⟨hpure, hall⟩ | ⟨other, hother, htried⟩
      · refine Or.inl ⟨hpure, ?_⟩
        intro other hmem
        rcases mem_cons.mp hmem with hsame | hlater
        · rw [hsame]
          exact not_tried_of_none hstep
        · exact hall other hlater
      · exact Or.inr ⟨other, mem_cons_of_mem step hother, htried⟩
    | some stepDef =>
      right
      refine ⟨step, mem_cons_self, ⟨stepDef, hstep, by simp⟩,
        .invoke stepDef 0, ?_, stepDef, hstep, Or.inl rfl⟩
      rw [circuitBreakerLoop, if_neg (by decide), hstep]
      apply Async.head?_bind
      exact Async.head?_catching (Async.head?_bind (head?_invokeOne stepDef 0 true false) _) _

theorem begins_compensate {policy : CompensationPolicy} {completed : List ι}
    {layers : List (List ι)}
    (hcover : ∀ step ∈ completed, step ∈ layers.flatten) :
    Begins saga policy completed (compensate env saga policy completed layers) := by
  cases policy with
  | strictSequential =>
    rw [compensate_strictSequential]
    apply begins_forEach
    intro step
    cases hstep : saga.compensable? step with
    | none => exact Or.inl ⟨strictRound_of_none hstep, not_tried_of_none hstep⟩
    | some stepDef =>
      refine Or.inr ⟨⟨stepDef, hstep, by simp⟩, stepDef, rfl, ?_⟩
      rw [strictRound_of_some hstep]
      exact head?_invokeOne stepDef 0 true false
  | retryWithBackoff =>
    rw [compensate_retryWithBackoff]
    apply begins_forEach
    intro step
    cases hstep : saga.compensable? step with
    | none =>
      refine Or.inl ⟨?_, not_tried_of_none hstep⟩
      unfold retryRound
      rw [hstep]
    | some stepDef =>
      rw [retryRound_of_some hstep]
      by_cases hcount : 1 ≤ compensationMaxRetries stepDef
      · exact Or.inr ⟨⟨stepDef, hstep, fun _ => hcount⟩, stepDef, rfl, head?_retryOne hcount⟩
      · refine Or.inl ⟨retryOne_of_nonpos (by omega), ?_⟩
        intro h
        obtain ⟨other, hother, hattempt⟩ := h
        rw [hstep] at hother
        rw [← Option.some.inj hother] at hattempt
        exact hcount (hattempt rfl)
  | circuitBreaker =>
    have hcode : (compensate env saga .circuitBreaker completed layers :
        Compensating ι V E Unit) =
        circuitBreakerLoop env saga 0 completed.reverse := by
      cases completed with
      | nil => rfl
      | cons first rest => rfl
    rw [hcode]
    rcases @begins_circuitBreakerLoop _ V E _ env saga
      completed.reverse with ⟨hpure, hall⟩ | ⟨step, hmem, hfound⟩
    · exact Or.inl ⟨hpure, fun step hmem =>
        hall step (mem_reverse.mpr hmem)⟩
    · exact Or.inr ⟨step, mem_reverse.mp hmem, hfound⟩
  | groupedParallel =>
    cases completed with
    | nil => exact Or.inl ⟨rfl, by simp⟩
    | cons first rest =>
      rw [compensate_groupedParallel (by simp)]
      have hknown : ∀ layer, ∀ other ∈ layerSteps saga (first :: rest) layer,
          saga.compensable? other.id = some other := by
        intro layer other hmem
        obtain ⟨step, _, _, hstep⟩ := mem_layerSteps.mp hmem
        rwa [SagaDefinition.id_of_compensable? hstep]
      have hopens := @Async.forEach_opens _ _ _ _
        (groupedRound saga (first :: rest) : List ι → Compensating ι V E Unit)
        (fun layer query => ∃ step ∈ first :: rest,
          Tried saga .groupedParallel step ∧ Opens saga step query)
        layers.reverse (by
          intro layer _
          by_cases hsteps : layerSteps saga (first :: rest) layer = []
          · refine Or.inl ?_
            unfold groupedRound
            rw [hsteps]
            rfl
          · right
            obtain ⟨stepDef, hmem⟩ := exists_mem_of_ne_nil _ hsteps
            obtain ⟨step, _, hcompleted, hstep⟩ :=
              mem_layerSteps.mp hmem
            rw [groupedRound_of_nonempty hsteps]
            exact ⟨_, rfl, step, hcompleted, ⟨stepDef, hstep, by simp⟩,
              stepDef, hstep, Or.inr ⟨_, false, rfl, hsteps, hknown layer⟩⟩)
      rcases hopens with ⟨hloop, hall⟩ | ⟨_, _, query, hhead, step, hmem, htried, hopens⟩
      · refine Or.inl ⟨hloop, ?_⟩
        intro step hmem htried
        obtain ⟨stepDef, hstep, _⟩ := htried
        obtain ⟨layer, hlayer, hin⟩ :=
          mem_flatten.mp (hcover step hmem)
        have hsteps : layerSteps saga (first :: rest) layer ≠ [] :=
          ne_nil_of_mem (mem_layerSteps.mpr ⟨step, hin, hmem, hstep⟩)
        have hround := hall layer (mem_reverse.mpr hlayer)
        rw [groupedRound_of_nonempty hsteps] at hround
        cases hround
      · exact Or.inr ⟨step, hmem, htried, query, hhead, hopens⟩
  | bestEffortParallel =>
    have hcode : (compensate env saga .bestEffortParallel completed
        layers : Compensating ι V E Unit) =
        bestEffortParallel saga completed := by
      cases completed with
      | nil => rfl
      | cons first rest => rfl
    rw [hcode]
    unfold bestEffortParallel
    by_cases hsteps : completed.filterMap saga.compensable? = []
    · left
      rw [hsteps]
      refine ⟨rfl, ?_⟩
      intro step hmem htried
      obtain ⟨stepDef, hstep, _⟩ := htried
      exact ne_nil_of_mem (mem_filterMap.mpr ⟨step, hmem, hstep⟩) hsteps
    · right
      obtain ⟨stepDef, hmem⟩ := exists_mem_of_ne_nil _ hsteps
      obtain ⟨step, hcompleted, hstep⟩ := mem_filterMap.mp hmem
      rw [if_neg (by simpa using hsteps)]
      refine ⟨step, hcompleted, ⟨stepDef, hstep, by simp⟩, _, rfl, stepDef,
        hstep, Or.inr ⟨_, true, rfl, hsteps, ?_⟩⟩
      intro other hother
      obtain ⟨found, _, hfound⟩ := mem_filterMap.mp hother
      rwa [SagaDefinition.id_of_compensable? hfound]

end Opening

section Answered

variable {env : Environment ι V E}

theorem ended_of_gatherReply {steps : List (StepDefinition ι)}
    {returnExceptions interrupted : Bool} {choice : ℕ}
    {results : List (Option (Except (Fault E) Unit))}
    {reply : CompensationReply V E} (hne : results ≠ [])
    (h : Environment.gatherReply (.gather steps returnExceptions)
      interrupted choice results = some reply) :
    ∃ result ∈ results, result.isSome = true := by
  have hall : results.all Option.isSome = true → ∃ result ∈ results, result.isSome = true := by
    intro hevery
    obtain ⟨result, hmem⟩ := exists_mem_of_ne_nil results hne
    exact ⟨result, hmem, all_eq_true.mp hevery result hmem⟩
  have hended : (if results.all Option.isSome then
      some (if interrupted then .error .cancelled else .ok none :
        CompensationReply V E) else none) = some reply →
      ∃ result ∈ results, result.isSome = true := by
    intro hreply
    split at hreply
    · next hevery => exact hall hevery
    · cases hreply
  cases returnExceptions with
  | true => exact hended h
  | false =>
    unfold Environment.gatherReply at h
    dsimp only at h
    split at h
    · next fault rest hfaults =>
        have hmem : fault ∈ (results.filterMap Environment.taskFault).rotate choice := by
          rw [hfaults]
          exact mem_cons_self
        obtain ⟨result, hresult, hfault⟩ :=
          mem_filterMap.mp (mem_rotate.mp hmem)
        refine ⟨result, hresult, ?_⟩
        cases result with
        | none => cases hfault
        | some value => rfl
    · exact hended h

variable {code : Compensating ι V E Unit} {schedule : List CrewPick}

theorem invoked_of_gathered (hcalm : .cancelCaller ∉ schedule)
    {steps : List (StepDefinition ι)} {returnExceptions : Bool}
    (hne : steps ≠ []) {reply : CompensationReply V E}
    (hcollected : env.compensationRules.Collected
      (env.compensationRules.execute code schedule).trace
      (.gather steps returnExceptions) reply) :
    ∃ stepDef ∈ steps, ∃ answer, .answered (.invoke stepDef 0) answer ∈
      (env.compensationRules.execute code schedule).trace := by
  obtain ⟨interrupted, choice, results, collected, hreported, hcollect, _⟩ :=
    hcollected _ (gatheredTasks_gather steps returnExceptions)
  have hresults : results ≠ [] := by
    intro hnil
    rw [hnil] at hreported
    exact hne (map_eq_nil_iff.mp (forall₂_nil_right_iff.mp hreported))
  obtain ⟨result, hresult, hended⟩ :=
    ended_of_gatherReply hresults hcollect
  obtain ⟨task, htask, value, hspoken⟩ :=
    spoken_of_ended hreported hresult hended
  obtain ⟨stepDef, hstepDef, hsame⟩ := mem_map.mp htask
  refine ⟨stepDef, hstepDef, ?_⟩
  rw [← hsame] at hspoken
  obtain ⟨dialogue, hleads, hanswered⟩ := hspoken
  -- the first turn of the task, and then the invocation
  rcases Coroutine.Leads.uncons hleads with ⟨_, hdone⟩ | ⟨turn, rest, hdialogue, hrest⟩
  · cases hdone
  · have hturn := foreseen_execute env.compensationRules code hcalm (.scheduled stepDef.id) turn
      (hanswered _ _ (by rw [hdialogue]; exact mem_cons_self)) rfl
    have hok : turn = .ok none := hturn
    rw [hok] at hrest
    obtain ⟨answer, hmem⟩ := Coroutine.Leads.of_head
      (head?_invokeOne stepDef 0 (!returnExceptions) false) hrest
    refine ⟨answer, hanswered _ _ ?_⟩
    rw [hdialogue]
    exact mem_cons_of_mem _ hmem

end Answered

section Theorem

variable [LinearOrder ι] {saga : SagaDefinition ι} {env : Environment ι V E}
variable {request : SagaRequest}

theorem ending_of_answered {stepDef : StepDefinition ι} {attempt : ℕ}
    {reply : CompensationReply V E}
    (hreply : reply = env.compensationAnswer (.invoke stepDef attempt)) :
    (ending? stepDef.id (.answered (.invoke stepDef attempt) reply)).isSome = true := by
  rw [hreply, answer_invoke]
  cases env.invokeCompensation stepDef attempt with
  | ok value => simp [ending?]
  | error error => simp [ending?]

theorem mem_keys_of_compensable? {step : ι} {stepDef : StepDefinition ι}
    (hstep : saga.compensable? step = some stepDef) :
    stepDef.id ∈ saga.steps.keys := by
  rw [SagaDefinition.id_of_compensable? hstep]
  exact Dict.mem_keys_of_get? (Option.filter_eq_some_iff.mp hstep).1

theorem not_unended_of_tried {policy : CompensationPolicy}
    {completed : List ι} {layers : List (List ι)}
    {schedule : List CrewPick} {trace : List (EngineEvent ι V E)}
    {crew : CompensationCrew ι V E}
    (hcalm : .cancelCaller ∉ schedule)
    (hcover : ∀ step ∈ completed, step ∈ layers.flatten)
    (hrun : compensation env saga policy completed layers schedule =
      ⟨crew, compensationSignals trace⟩)
    (hdone : crew.main.isDone = true)
    {step : ι} (hmem : step ∈ completed) (htried : Tried saga policy step) :
    ¬ Unended saga trace := by
  intro hunended
  have hmain : (compensation env saga policy completed layers
      schedule).state.main.isDone = true := by rw [hrun]; exact hdone
  have hanswered : ∀ stepDef reply, saga.compensable? stepDef.id = some stepDef →
      .answered (.invoke stepDef 0) reply ∉
        (compensation env saga policy completed layers schedule).trace := by
    intro stepDef reply hstepDef hanswer
    have hreply := foreseen_execute env.compensationRules _ hcalm _ _ hanswer rfl
    obtain ⟨result, hending⟩ :=
      Option.isSome_iff_exists.mp (ending_of_answered hreply)
    rw [hrun] at hanswer
    have hends : result ∈ endings stepDef.id trace :=
      mem_filterMap.mpr ⟨_, hanswer, hending⟩
    rw [hunended stepDef.id (mem_keys_of_compensable? hstepDef)] at hends
    cases hends
  rcases @begins_compensate _ V E _ env saga policy completed layers
    hcover with ⟨_, hnone⟩ | ⟨other, _, _, query, hhead, hopens⟩
  · exact hnone step hmem htried
  · obtain ⟨stepDef, hstepDef, hquery⟩ := hopens
    obtain ⟨reply, hanswer, hcollected⟩ :=
      @answered_head _ _ _ _ env.compensationRules _ _ hhead schedule hmain
    rcases hquery with hinvoke | ⟨steps, returnExceptions, hgather, hne, hall⟩
    · rw [hinvoke] at hanswer
      have hid := SagaDefinition.id_of_compensable? hstepDef
      exact hanswered stepDef reply (by rw [hid]; exact hstepDef) hanswer
    · rw [hgather] at hcollected
      obtain ⟨found, hfound, answer, hmemAnswer⟩ :=
        invoked_of_gathered hcalm hne hcollected
      exact hanswered found answer (hall found hfound) hmemAnswer

theorem unended_of_not_tried {policy : CompensationPolicy}
    {completed : List ι} {layers : List (List ι)}
    {schedule : List CrewPick} {trace : List (EngineEvent ι V E)}
    {crew : CompensationCrew ι V E}
    (hcover : ∀ step ∈ completed, step ∈ layers.flatten)
    (hrun : compensation env saga policy completed layers schedule =
      ⟨crew, compensationSignals trace⟩)
    (hnone : ∀ step ∈ completed, ¬ Tried saga policy step) :
    Unended saga trace := by
  rcases @begins_compensate _ V E _ env saga policy completed layers
    hcover with ⟨hpure, _⟩ | ⟨other, hmem, htried, _⟩
  · have hover : (env.compensationRules.start
        (compensate env saga policy completed layers)).1.Over (.ok ()) := by
      rw [hpure]
      exact ⟨rfl, rfl, by simp [GatherRules.start, GatherRules.enter]⟩
    have hsilent : (compensation env saga policy completed layers schedule).trace = [] := by
      unfold compensation GatherRules.execute
      rw [Crew.Over.runFrom hover]
      show (env.compensationRules.start _).2 = []
      rw [hpure]
      rfl
    rw [hrun] at hsilent
    intro step _
    unfold endings
    rw [show compensationSignals trace = [] from hsilent]
    rfl
  · exact absurd htried (hnone other hmem)

/-- The condition on the call of the compensator: it is not made, or none of
the completed steps it is given has a compensation to try. -/
def NothingTried (saga : SagaDefinition ι) (policy : CompensationPolicy)
    (trace : List (EngineEvent ι V E)) : Prop :=
  ∀ completed, .compensationEntered completed ∈ trace →
    ∀ step ∈ completed, ¬ Tried saga policy step

theorem unended_iff {schedule : List (EnginePick ι)}
    (hcalm : .cancelCaller ∉ schedule) {outcome : EngineOutcome ι V E}
    (hend : (executeSaga saga env request schedule).state.phase = .finished outcome) :
    Unended saga (executeSaga saga env request schedule).trace ↔
      NothingTried saga request.policy (executeSaga saga env request schedule).trace := by
  have hstage := executeSaga_stage saga env request
    (show True → .cancelCaller ∉ schedule from fun _ => hcalm)
  generalize (executeSaga saga env request schedule).state = engine at *
  generalize (executeSaga saga env request schedule).trace = trace at *
  have hquiet : compensationSignals trace = [] → compensationEntries trace = [] →
      (Unended saga trace ↔ NothingTried saga request.policy trace) := by
    intro hsignals hentries
    constructor
    · intro _ completed hmem
      have hentry := mem_compensationEntries.mpr hmem
      rw [hentries] at hentry
      cases hentry
    · intro _ step _
      unfold endings
      rw [hsignals]
      rfl
  cases hstage with
  | unstarted hphase horchestration hcrew hparts =>
    exact hquiet hparts.signals hparts.entries
  | executing steps hquietCaller hrun hphase hmain hcrew hsignals hentries =>
    exact hquiet hsignals hentries
  | concluded steps hquietCaller hrun verdict hverdict hpast hcrew hsignals hentries =>
      exact hquiet hsignals hentries
  | compensating steps crewSchedule hquietCaller hrun error hraised hcrewRun hentries hstop =>
      have hdone : engine.crew.main.isDone = true := by
        rcases hstop with ⟨hcompensating, _⟩ | ⟨result, hresult, _⟩
        · rw [hend] at hcompensating
          cases hcompensating
        · rw [hresult]
          rfl
      have hcovered := (@orchestrate_covered _ V E _ saga env request steps).2
      rw [hrun] at hcovered
      have hcover : ∀ step ∈ engine.orchestration.ctx.doneSteps,
          step ∈ engine.orchestration.ctx.topologyLayers.flatten :=
        fun step hmem => (hcovered step hmem).2
      constructor
      · intro hunended completed hmem step hstep htried
        have hentry := mem_compensationEntries.mpr hmem
        rw [hentries] at hentry
        rw [mem_singleton.mp hentry] at hstep
        exact not_unended_of_tried (hquietCaller trivial).2 hcover hcrewRun
          hdone hstep htried hunended
      · intro hnothing
        apply unended_of_not_tried hcover hcrewRun
        apply hnothing
        apply mem_compensationEntries.mp
        rw [hentries]
        exact mem_cons_self

/-- The result of a run tells the truth about compensation exactly when no
compensation has ended in it; without a cancellation that is when the
compensator was given nothing to try. -/
theorem compensation_truth_iff {schedule : List (EnginePick ι)} {result : SagaResult ι V E}
    (hend : (executeSaga saga env request schedule).state.phase =
      .finished (.returned result)) :
    (CompensationTruth result (executeSaga saga env request schedule).trace ↔
      Unended saga (executeSaga saga env request schedule).trace) ∧
    (.cancelCaller ∉ schedule → (CompensationTruth result
          (executeSaga saga env request schedule).trace ↔
        NothingTried saga request.policy (executeSaga saga env request schedule).trace)) := by
  have htruth : CompensationTruth result (executeSaga saga env request schedule).trace ↔
        Unended saga (executeSaga saga env request schedule).trace := by
    have hstage := executeSaga_stage saga env request
      (show False → .cancelCaller ∉ schedule from False.elim)
    obtain ⟨steps, error, hrun, hresult⟩ := returned_of_stage hstage hend
    have hforward := orchestrate_forward saga env request steps
    rw [hrun] at hforward
    apply truth_iff_unended
    · rw [hresult]
      exact Dict.keys_mapValues _ _
    · intro step outcome houtcome
      rw [hresult] at houtcome
      change (saga.steps.mapValues _).get? step = some outcome at houtcome
      rw [Dict.get?_mapValues] at houtcome
      obtain ⟨stepDef, _, hsame⟩ := Option.map_eq_some_iff.mp houtcome
      rw [← hsame]
      unfold stepOutcome
      rw [hforward.compensationResults, hforward.compensationErrors]
      refine ⟨rfl, rfl, rfl, ?_⟩
      intro hstatus
      apply hforward.statuses step
      dsimp only at hstatus
      unfold SagaContext.status?
      cases hstored : (executeSaga saga env request
          schedule).state.orchestration.ctx.stepStatuses.get? step with
      | none =>
        rw [hstored] at hstatus
        cases hstatus
      | some status =>
        rw [hstored] at hstatus
        exact congrArg some hstatus
  refine ⟨htruth, ?_⟩
  intro hcalm
  rw [htruth]
  exact unended_iff hcalm hend

end Theorem

/-- The first step of a chain raises, and nothing is compensated. -/
theorem compensation_truth_chain :
    ∃ result, (executeSaga chainSaga (Environment.failing 0 () ())
        ⟨"1", Dict.empty, .strictSequential⟩
        [.task 0, .task 0, .main 0]).state.phase = .finished (.returned result) ∧
      (CompensationTruth result (executeSaga chainSaga (Environment.failing 0 () ())
            ⟨"1", Dict.empty, .strictSequential⟩
            [.task 0, .task 0, .main 0]).trace ↔
        NothingTried chainSaga .strictSequential
          (executeSaga chainSaga (Environment.failing 0 () ())
            ⟨"1", Dict.empty, .strictSequential⟩
            [.task 0, .task 0, .main 0]).trace) :=
  ⟨_, rfl, (compensation_truth_iff rfl).2 (by simp)⟩

/-- The second step raises: the compensation of the first returns, and the
result says that it has not been compensated. -/
theorem not_compensation_truth_chain :
    ∃ result outcome, (executeSaga chainSaga (Environment.failing 1 () ())
        ⟨"1", Dict.empty, .strictSequential⟩
        [.task 0, .task 0, .main 0, .task 1, .task 1, .main 0,
          .main 0]).state.phase = .finished (.returned result) ∧
      .ok (some ()) ∈ endings 0 (executeSaga chainSaga (Environment.failing 1 () ())
          ⟨"1", Dict.empty, .strictSequential⟩
          [.task 0, .task 0, .main 0, .task 1, .task 1, .main 0, .main 0]).trace ∧
      result.steps.get? 0 = some outcome ∧ outcome.compensated = false ∧
      ¬ CompensationTruth result (executeSaga chainSaga (Environment.failing 1 () ())
          ⟨"1", Dict.empty, .strictSequential⟩
          [.task 0, .task 0, .main 0, .task 1, .task 1, .main 0, .main 0]).trace := by
  have hendings : endings 0 (executeSaga chainSaga (Environment.failing 1 () ())
        ⟨"1", Dict.empty, .strictSequential⟩
        [.task 0, .task 0, .main 0, .task 1, .task 1, .main 0,
          .main 0]).trace = [.ok (some ())] := rfl
  refine ⟨_, _, rfl, ?_, rfl, rfl, ?_⟩
  · rw [hendings]
    exact mem_cons_self
  · intro htruth
    have hcompensated := (htruth.compensated 0 _ rfl).mpr
      ⟨some (), by rw [hendings]; exact mem_cons_self⟩
    cases hcompensated

end PyFly.Saga
