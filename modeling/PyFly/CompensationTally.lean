import PyFly.CompensatorQuiescence

/-!
# How often a compensation is invoked

Under each policy the compensator goes once through the completed steps, in
an order of the policy's own.  As long as no invocation fails, it invokes the
compensation of every compensable step it comes to exactly once.
-/

namespace PyFly.Saga

open Library Transactional Compensating List

variable {ι V E : Type}

section Failures

variable {env : Environment ι V E} {stepDef : StepDefinition ι}

theorem invokeOneFailure_eq_none {attempt : ℕ} {skipErrorHandler : Bool} :
    env.invokeOneFailure stepDef attempt skipErrorHandler = none ↔
      (∃ value, env.invokeCompensation stepDef attempt = .ok value) ∧
        env.compensatedFailure stepDef.id none attempt = none := by
  unfold Environment.invokeOneFailure
  cases env.invokeCompensation stepDef attempt with
  | ok value => simp
  | error error => simp

theorem attemptFailure_eq_none {attempt : ℕ} : env.attemptFailure stepDef attempt = none ↔
      env.invokeOneFailure stepDef attempt false = none := by
  unfold Environment.attemptFailure
  rw [invokeOneFailure_eq_none, invokeOneFailure_eq_none]

theorem attempts_of_first (hcount : 1 ≤ compensationMaxRetries stepDef)
    (hnone : env.invokeOneFailure stepDef 0 false = none) :
    attempts env stepDef = [0] := by
  unfold attempts
  obtain ⟨more, hmore⟩ : ∃ more, (compensationMaxRetries stepDef).toNat = more + 1 :=
    ⟨(compensationMaxRetries stepDef).toNat - 1, by omega⟩
  rw [hmore, Environment.attemptsMade, attemptFailure_eq_none.mpr hnone]

theorem settles_of_first (hcount : 1 ≤ compensationMaxRetries stepDef)
    (hnone : env.invokeOneFailure stepDef 0 false = none) :
    Settles env stepDef :=
  Or.inr ⟨0, by omega, attemptFailure_eq_none.mpr hnone⟩

end Failures

section Weights

variable {env : Environment ι V E} (counted : CompensationQuery ι E → Bool)

theorem weight_of_single {queries : List (CompensationQuery ι E)}
    (hsingle : ∀ query ∈ queries, Single query) :
    env.compensationRules.weight counted queries = queries.countP counted := by
  unfold GatherRules.weight
  induction queries with
  | nil => rfl
  | cons query rest ih =>
    obtain ⟨step, hstep⟩ := hsingle query mem_cons_self
    have hplain : env.compensationRules.children query = none :=
      gatheredTasks_of_step hstep
    have hrest := ih fun other hmem =>
      hsingle other (mem_cons_of_mem _ hmem)
    rw [map_cons, sum_cons, hrest, hplain, countP_cons]
    cases counted query with
    | true =>
      simp [GatherRules.childWeight]
      omega
    | false => simp [GatherRules.childWeight]

theorem weight_append (first second : List (CompensationQuery ι E)) :
    env.compensationRules.weight counted (first ++ second) =
      env.compensationRules.weight counted first +
        env.compensationRules.weight counted second := by
  simp [GatherRules.weight]

end Weights

section Tally

variable [DecidableEq ι] {env : Environment ι V E} {saga : SagaDefinition ι}

theorem countP_rounds {items : List ι} (hnodup : items.Nodup)
    {queries : ι → List (CompensationQuery ι E)} (step : ι)
    (howner : ∀ item, ∀ query ∈ queries item, query.step? = some item) :
    (items.flatMap queries).countP (CompensationQuery.invokes step) = if step ∈ items then
        (queries step).countP (CompensationQuery.invokes step)
      else 0 := by
  have hother : ∀ item, item ≠ step → item ∈ items →
      (queries item).countP (CompensationQuery.invokes step) = 0 := by
    intro item hne _
    rw [countP_eq_zero]
    intro query hmem hinvokes
    have hsame := (howner item query hmem).symm.trans (step_of_invokes hinvokes)
    exact hne (Option.some.inj hsame)
  rw [countP_flatMap]
  show (items.map fun item =>
    (queries item).countP (CompensationQuery.invokes step)).sum = _
  rw [sum_map_eq_nsmul_single step _ hother, List.Nodup.count hnodup]
  split
  · simp
  · simp

def strictRound (env : Environment ι V E) (saga : SagaDefinition ι)
    (step : ι) : Compensating ι V E Unit :=
  match saga.compensable? step with
  | none => pure ()
  | some stepDef => invokeOne env stepDef 0 true false

variable {step : ι}

theorem strictRound_of_some {stepDef : StepDefinition ι}
    (hstep : saga.compensable? step = some stepDef) :
    strictRound env saga step = invokeOne env stepDef 0 true false := by
  unfold strictRound
  rw [hstep]

theorem strictRound_of_none (hstep : saga.compensable? step = none) :
    (strictRound env saga step : Compensating ι V E Unit) = pure () := by
  unfold strictRound
  rw [hstep]

theorem strictRound_always (step : ι) :
    Async.Always (fun query => query.step? = some step) (strictRound env saga step) := by
  cases hstep : saga.compensable? step with
  | none =>
    rw [strictRound_of_none hstep]
    trivial
  | some stepDef =>
    have halways := @invokeOne_always _ V _ env stepDef 0 true false
    rw [SagaDefinition.id_of_compensable? hstep] at halways
    rwa [strictRound_of_some hstep]

theorem raised_eq_ok {failure : Option E} : raised failure = .ok () ↔ failure = none := by
  cases failure with
  | none => simp [raised]
  | some error => simp [raised]

theorem outcome_strictRound_eq_ok :
    (strictRound env saga step).outcome env.compensationAnswer = .ok () ↔
      ∀ stepDef, saga.compensable? step = some stepDef →
        env.invokeOneFailure stepDef 0 false = none := by
  cases hstep : saga.compensable? step with
  | none =>
    rw [strictRound_of_none hstep]
    simp
  | some stepDef =>
    rw [strictRound_of_some hstep, outcome_invokeOne, raised_eq_ok]
    simp

theorem countP_strictRound (step : ι) :
    ((strictRound env saga step).queries env.compensationAnswer).countP
        (CompensationQuery.invokes step) =
      if saga.Compensable step then 1 else 0 := by
  cases hstep : saga.compensable? step with
  | none =>
    rw [strictRound_of_none hstep, if_neg (SagaDefinition.not_compensable_of_none hstep)]
    rfl
  | some stepDef =>
    rw [strictRound_of_some hstep, countP_invokeOne,
      if_pos (SagaDefinition.id_of_compensable? hstep),
      if_pos (SagaDefinition.compensable_of_some hstep)]

theorem countP_retryRound (hcount : ∀ stepDef, saga.compensable? step = some stepDef →
      1 ≤ compensationMaxRetries stepDef)
    (hnone : ∀ stepDef, saga.compensable? step = some stepDef →
      env.invokeOneFailure stepDef 0 false = none) :
    ((retryRound env saga step).queries env.compensationAnswer).countP
        (CompensationQuery.invokes step) =
      if saga.Compensable step then 1 else 0 := by
  cases hstep : saga.compensable? step with
  | none =>
    unfold retryRound
    rw [hstep, if_neg (SagaDefinition.not_compensable_of_none hstep)]
    rfl
  | some stepDef =>
    have hfilter := filter_retryOne env stepDef
    rw [SagaDefinition.id_of_compensable? hstep,
      attempts_of_first (hcount stepDef hstep) (hnone stepDef hstep)]
      at hfilter
    rw [retryRound_of_some hstep, countP_eq_length_filter, hfilter,
      if_pos (SagaDefinition.compensable_of_some hstep)]
    rfl

theorem compensate_strictSequential (completed : List ι) (layers : List (List ι)) :
    compensate env saga .strictSequential completed layers =
      Async.forEach completed.reverse (strictRound env saga) := by
  cases completed with
  | nil => rfl
  | cons first rest => rfl

theorem weight_forEach {items : List ι} (hnodup : items.Nodup)
    {body : ι → Compensating ι V E Unit} (step : ι)
    (halways : ∀ item, Async.Always (fun query => query.step? = some item) (body item)) :
    env.compensationRules.weight (CompensationQuery.invokes step)
        ((Async.forEach items body).queries env.compensationAnswer) =
      if step ∈ Async.begun env.compensationAnswer body items then
        ((body step).queries env.compensationAnswer).countP (CompensationQuery.invokes step)
      else 0 := by
  have howner : ∀ item, ∀ query ∈ (body item).queries env.compensationAnswer,
      query.step? = some item :=
    fun item => Coroutine.Always.mem_queries (halways item) _
  have hbegun : (Async.begun env.compensationAnswer body items).Nodup :=
    hnodup.sublist (Async.begun_prefix env.compensationAnswer items).sublist
  rw [Async.queries_forEach, weight_of_single]
  · exact countP_rounds hbegun step howner
  · intro query hmem
    obtain ⟨item, _, hquery⟩ := mem_flatMap.mp hmem
    exact ⟨item, howner item query hquery⟩

/-! ## Gatherings -/

def gatheredTask (env : Environment ι V E) (returnExceptions : Bool)
    (stepDef : StepDefinition ι) : Compensating ι V E Unit := do
  perform (.scheduled stepDef.id)
  invokeOne env stepDef 0 (!returnExceptions) false

omit [DecidableEq ι] in
theorem gatheredTasks_gather (steps : List (StepDefinition ι)) (returnExceptions : Bool) :
    env.gatheredTasks (.gather steps returnExceptions) =
      some (steps.map (gatheredTask env returnExceptions)) := by
  cases returnExceptions with
  | false => rfl
  | true =>
    unfold Environment.gatheredTasks
    dsimp only
    congr 2
    funext stepDef
    rw [compensateOne_eq]
    rfl

theorem countP_gatheredTask (returnExceptions : Bool) (stepDef : StepDefinition ι) (step : ι) :
    (Coroutine.queries env.compensationAnswer
        (gatheredTask env returnExceptions stepDef)).countP
        (CompensationQuery.invokes step) =
      if stepDef.id = step then 1 else 0 := by
  have hscheduled : (perform (.scheduled stepDef.id) :
      Compensating ι V E Unit).outcome env.compensationAnswer = .ok () :=
    rfl
  have hqueries : Async.queries env.compensationAnswer
      (gatheredTask env returnExceptions stepDef) =
      .scheduled stepDef.id :: (invokeOne env stepDef 0 (!returnExceptions)
        false).queries env.compensationAnswer := by
    unfold gatheredTask
    rw [Async.queries_bind_of_ok _ hscheduled, queries_perform]
    rfl
  have hcount := @countP_invokeOne _ V _ env stepDef _
    env.compensationAnswer 0 (!returnExceptions) false step
  have hturn : CompensationQuery.invokes step
      (.scheduled stepDef.id : CompensationQuery ι E) = false := by
    simp [CompensationQuery.invokes, CompensationQuery.invoked?]
  calc
    _ = (.scheduled stepDef.id :: (invokeOne env stepDef 0
          (!returnExceptions) false).queries env.compensationAnswer).countP
        (CompensationQuery.invokes step) :=
      congrArg (List.countP (CompensationQuery.invokes step)) hqueries
    _ = _ := by
      rw [countP_cons_of_neg (by rw [hturn]; simp), hcount]

theorem weight_gather (steps : List (StepDefinition ι)) (returnExceptions : Bool) (step : ι) :
    env.compensationRules.weight (CompensationQuery.invokes step)
        [.gather steps returnExceptions] =
      steps.countP fun stepDef => stepDef.id = step := by
  have hchildren : env.compensationRules.children (.gather steps returnExceptions) =
        some (steps.map (gatheredTask env returnExceptions)) :=
    gatheredTasks_gather steps returnExceptions
  have hchild : env.compensationRules.childWeight (CompensationQuery.invokes step)
      (steps.map (gatheredTask env returnExceptions)) =
        steps.countP fun stepDef => stepDef.id = step := by
    unfold GatherRules.childWeight
    clear hchildren
    induction steps with
    | nil => rfl
    | cons stepDef rest ih =>
      have hhead := @countP_gatheredTask _ V _ _ env returnExceptions stepDef step
      rw [countP_cons, ← ih, Nat.add_comm]
      simp only [decide_eq_true_eq]
      rw [← hhead]
      rfl
  unfold GatherRules.weight
  rw [map_singleton, sum_singleton, hchildren]
  exact (Nat.zero_add _).trans hchild

theorem countP_compensable {items : List ι} (hnodup : items.Nodup) (step : ι) :
    ((items.filterMap saga.compensable?).countP fun stepDef =>
        stepDef.id = step) =
      if step ∈ items ∧ saga.Compensable step then 1 else 0 := by
  induction items with
  | nil => simp
  | cons item rest ih =>
    obtain ⟨hnot, hrest⟩ := nodup_cons.mp hnodup
    cases hitem : saga.compensable? item with
    | none =>
      have hnone := SagaDefinition.not_compensable_of_none hitem
      rw [filterMap_cons_none hitem, ih hrest]
      by_cases hsame : item = step
      · rw [hsame] at hnone
        simp [hnone]
      · simp [Ne.symm hsame]
    | some stepDef =>
      have hsome := SagaDefinition.compensable_of_some hitem
      have hid := SagaDefinition.id_of_compensable? hitem
      rw [filterMap_cons_some hitem, countP_cons, ih hrest, hid]
      by_cases hsame : item = step
      · rw [hsame] at hnot hsome
        simp [hsame, hnot, hsome]
      · simp [hsame, Ne.symm hsame]

/-! ## The policies -/

def compensationOrder (policy : CompensationPolicy) (completed : List ι)
    (layers : List (List ι)) : List ι :=
  match policy with
  | .groupedParallel =>
    layers.reverse.flatten.filter fun step => step ∈ completed
  | .bestEffortParallel => completed
  | _ => completed.reverse

def Smooth (env : Environment ι V E) (saga : SagaDefinition ι) (completed : List ι) : Prop :=
  ∀ step ∈ completed, ∀ stepDef, saga.compensable? step = some stepDef →
    env.invokeOneFailure stepDef 0 false = none

def Retried (saga : SagaDefinition ι) (completed : List ι) : Prop :=
  ∀ step ∈ completed, ∀ stepDef, saga.compensable? step = some stepDef →
    1 ≤ compensationMaxRetries stepDef

def Tried (saga : SagaDefinition ι) (policy : CompensationPolicy) (step : ι) :
    Prop :=
  ∃ stepDef, saga.compensable? step = some stepDef ∧
    (policy = .retryWithBackoff → 1 ≤ compensationMaxRetries stepDef)

variable {completed : List ι}

theorem weight_strictSequential (hnodup : completed.Nodup)
    (layers : List (List ι)) (hsmooth : Smooth env saga completed) (step : ι) :
    env.compensationRules.weight (CompensationQuery.invokes step)
        ((compensate env saga .strictSequential completed layers).queries
          env.compensationAnswer) =
      if step ∈ completed ∧ saga.Compensable step then 1 else 0 := by
  have hok : ∀ item ∈ completed.reverse,
      (strictRound env saga item).outcome env.compensationAnswer = .ok () := by
    intro item hmem
    exact outcome_strictRound_eq_ok.mpr (hsmooth item (mem_reverse.mp hmem))
  rw [compensate_strictSequential,
    weight_forEach (nodup_reverse.mpr hnodup) step strictRound_always,
    Async.begun_of_all_ok _ hok, countP_strictRound]
  by_cases hmem : step ∈ completed
  · simp [hmem]
  · simp [hmem]

theorem weight_retryWithBackoff (hnodup : completed.Nodup)
    (layers : List (List ι)) (hretried : Retried saga completed)
    (hsmooth : Smooth env saga completed) (step : ι) :
    env.compensationRules.weight (CompensationQuery.invokes step)
        ((compensate env saga .retryWithBackoff completed layers).queries
          env.compensationAnswer) =
      if step ∈ completed ∧ saga.Compensable step then 1 else 0 := by
  have hok : ∀ item ∈ completed.reverse,
      (retryRound env saga item).outcome env.compensationAnswer = .ok () := by
    intro item hmem
    rw [outcome_retryRound_eq_ok]
    intro stepDef hstep
    have hcompleted := mem_reverse.mp hmem
    exact settles_of_first (hretried item hcompleted stepDef hstep)
      (hsmooth item hcompleted stepDef hstep)
  rw [compensate_retryWithBackoff,
    weight_forEach (nodup_reverse.mpr hnodup) step retryRound_always,
    Async.begun_of_all_ok _ hok]
  by_cases hmem : step ∈ completed
  · rw [countP_retryRound (hretried step hmem) (hsmooth step hmem)]
    simp [hmem]
  · simp [hmem]

/-- Without failures the breaker stays closed and the loop is that of
`_strict_sequential`. -/
theorem queries_circuitBreakerLoop {steps : List ι} (hsmooth : Smooth env saga steps) :
    (circuitBreakerLoop env saga 0 steps).queries env.compensationAnswer =
      steps.flatMap fun step =>
        (strictRound env saga step).queries env.compensationAnswer := by
  induction steps with
  | nil => rfl
  | cons step rest ih =>
    have hrest := ih fun other hmem =>
      hsmooth other (mem_cons_of_mem _ hmem)
    rw [circuitBreakerLoop, if_neg (by decide), flatMap_cons]
    cases hstep : saga.compensable? step with
    | none =>
      rw [strictRound_of_none hstep]
      exact hrest
    | some stepDef =>
      have hnone := hsmooth step mem_cons_self stepDef hstep
      have hinvoke : (invokeOne env stepDef 0 true false).outcome
          env.compensationAnswer = .ok () := by
        rw [outcome_invokeOne, hnone]
        rfl
      have hbody : (do
          invokeOne env stepDef 0 true false
          pure 0 : Compensating ι V E ℕ).outcome env.compensationAnswer = .ok 0 := by
        rw [Async.outcome_bind_of_ok _ hinvoke]
        rfl
      have hcaught := Async.outcome_catching_of_ok _ hbody
        (exceptException fun _ => pure (0 + 1))
      rw [strictRound_of_some hstep]
      dsimp only
      rw [Async.queries_bind_of_ok _ hcaught, hrest, Async.queries_catching_of_ok _ hbody,
        Async.queries_bind_of_ok _ hinvoke, Async.queries_pure,
        append_nil]

theorem weight_circuitBreaker (hnodup : completed.Nodup)
    (layers : List (List ι)) (hsmooth : Smooth env saga completed) (step : ι) :
    env.compensationRules.weight (CompensationQuery.invokes step)
        ((compensate env saga .circuitBreaker completed layers).queries
          env.compensationAnswer) =
      if step ∈ completed ∧ saga.Compensable step then 1 else 0 := by
  have hcode : compensate env saga .circuitBreaker completed layers =
      circuitBreakerLoop env saga 0 completed.reverse := by
    cases completed with
    | nil => rfl
    | cons first rest => rfl
  have hreverse : Smooth env saga completed.reverse :=
    fun other hmem => hsmooth other (mem_reverse.mp hmem)
  rw [hcode, weight_of_single, queries_circuitBreakerLoop hreverse,
    countP_rounds (nodup_reverse.mpr hnodup) step, countP_strictRound]
  · by_cases hmem : step ∈ completed
    · simp [hmem]
    · simp [hmem]
  · exact fun item =>
      Coroutine.Always.mem_queries (strictRound_always item) _
  · exact Coroutine.Always.mem_queries (single_circuitBreakerLoop 0 completed.reverse) _

theorem weight_bestEffortParallel (hnodup : completed.Nodup)
    (layers : List (List ι)) (step : ι) :
    env.compensationRules.weight (CompensationQuery.invokes step)
        ((compensate env saga .bestEffortParallel completed layers).queries
          env.compensationAnswer) =
      if step ∈ completed ∧ saga.Compensable step then 1 else 0 := by
  have hcode : (compensate env saga .bestEffortParallel completed layers :
      Compensating ι V E Unit) = bestEffortParallel saga completed := by
    cases completed with
    | nil => rfl
    | cons first rest => rfl
  rw [hcode, ← countP_compensable hnodup step]
  unfold bestEffortParallel
  cases hsteps : completed.filterMap saga.compensable? with
  | nil => rfl
  | cons stepDef rest =>
    rw [if_neg (by simp), queries_perform, weight_gather]

theorem weight_groupedRound (completed layer : List ι) (step : ι) :
    env.compensationRules.weight (CompensationQuery.invokes step)
        ((groupedRound saga completed layer : Compensating ι V E
          Unit).queries env.compensationAnswer) =
      (layerSteps saga completed layer).countP fun stepDef =>
        stepDef.id = step := by
  by_cases hsteps : layerSteps saga completed layer = []
  · unfold groupedRound
    rw [hsteps]
    rfl
  · rw [groupedRound_of_nonempty hsteps, queries_perform, weight_gather]

theorem weight_groupedParallel {layers : List (List ι)}
    (hnodup : layers.flatten.Nodup) (hsmooth : Smooth env saga completed)
    (step : ι) :
    env.compensationRules.weight (CompensationQuery.invokes step)
        ((compensate env saga .groupedParallel completed layers).queries
          env.compensationAnswer) =
      if (step ∈ completed ∧ step ∈ layers.flatten) ∧
        saga.Compensable step then 1 else 0 := by
  have horder : (compensationOrder .groupedParallel completed layers).Nodup := by
    apply List.Nodup.filter
    exact (reverse_perm layers).flatten.nodup_iff.mpr hnodup
  have hmem : step ∈ compensationOrder .groupedParallel completed layers ↔
      step ∈ completed ∧ step ∈ layers.flatten := by
    rw [compensationOrder, mem_filter, (reverse_perm layers).flatten.mem_iff]
    simp [and_comm]
  have hcount := @countP_compensable _ _ saga _ horder step
  simp only [hmem] at hcount
  rw [← hcount]
  have hsum : ∀ rounds : List (List ι), (∀ layer ∈ rounds, layer ∈ layers.reverse) →
      env.compensationRules.weight (CompensationQuery.invokes step)
          ((Async.forEach rounds (groupedRound saga completed) :
            Compensating ι V E Unit).queries env.compensationAnswer) =
        ((rounds.flatten.filter fun step => step ∈ completed).filterMap
          saga.compensable?).countP fun stepDef => stepDef.id = step := by
    intro rounds hrounds
    induction rounds with
    | nil => rfl
    | cons layer rest ih =>
      have hok : (groupedRound saga completed layer : Compensating ι V E
          Unit).outcome env.compensationAnswer = .ok () := by
        rw [outcome_groupedRound_eq_ok]
        intro stepDef hlayer
        obtain ⟨other, _, hcompleted, hother⟩ := mem_layerSteps.mp hlayer
        exact hsmooth other hcompleted stepDef hother
      rw [Async.forEach, Async.queries_bind_of_ok _ hok, weight_append,
        weight_groupedRound, ih fun other hother =>
          hrounds other (mem_cons_of_mem _ hother),
        flatten_cons, filter_append, filterMap_append,
        countP_append]
      rfl
  cases completed with
  | nil =>
    rw [show compensate env saga .groupedParallel [] layers =
      (pure () : Compensating ι V E Unit) from rfl, hcount,
      if_neg (by simp)]
    rfl
  | cons first rest =>
    rw [compensate_groupedParallel (by simp),
      hsum layers.reverse fun _ hlayer => hlayer]
    rfl

theorem weight_compensate {policy : CompensationPolicy}
    (hnodup : completed.Nodup) {layers : List (List ι)}
    (hlayers : layers.flatten.Nodup) (hcover : policy = .groupedParallel →
      ∀ step ∈ completed, step ∈ layers.flatten)
    (hretried : policy = .retryWithBackoff → Retried saga completed)
    (hsmooth : Smooth env saga completed) (step : ι) :
    env.compensationRules.weight (CompensationQuery.invokes step)
        ((compensate env saga policy completed layers).queries env.compensationAnswer) =
      if step ∈ completed ∧ saga.Compensable step then 1 else 0 := by
  cases policy with
  | strictSequential =>
    exact weight_strictSequential hnodup layers hsmooth step
  | groupedParallel =>
    rw [weight_groupedParallel hlayers hsmooth step]
    congr 1
    have hmem := hcover rfl step
    simp only [eq_iff_iff]
    constructor
    · exact fun h => ⟨h.1.1, h.2⟩
    · exact fun h => ⟨⟨h.1, hmem h.1⟩, h.2⟩
  | retryWithBackoff =>
    exact weight_retryWithBackoff hnodup layers (hretried rfl) hsmooth step
  | circuitBreaker =>
    exact weight_circuitBreaker hnodup layers hsmooth step
  | bestEffortParallel => exact weight_bestEffortParallel hnodup layers step

end Tally

end PyFly.Saga
