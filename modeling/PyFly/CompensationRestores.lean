import PyFly.CompensationTally

/-!
# When every compensation is carried out

Undisturbed, the compensator is determined by the answers of its calls.  For
each policy the steps whose compensation has an invocation that returns are
found by reading its loop: which rounds are reached, and which attempts
return.
-/

namespace PyFly.Saga

open Library Transactional Compensating List

variable {ι V E : Type}

section Restores

variable [DecidableEq ι]

def CompensationQuery.recovers (env : Environment ι V E) (step : ι) :
    CompensationQuery ι E → Bool
  | .invoke stepDef attempt =>
    decide (stepDef.id = step) && (env.invokeCompensation stepDef attempt).isOk
  | _ => false

/-- The loop of `_strict_sequential` gets to a step: of the steps behind it in
the list no invocation fails. -/
def ReachedInSequence (env : Environment ι V E) (saga : SagaDefinition ι)
    (completed : List ι) (step : ι) : Prop :=
  ∃ earlier later, completed = earlier ++ step :: later ∧
    ∀ other ∈ later, ∀ stepDef, saga.compensable? other = some stepDef →
      env.invokeOneFailure stepDef 0 false = none

def Returns (env : Environment ι V E) (stepDef : StepDefinition ι) : Prop :=
  ∃ value, env.invokeCompensation stepDef 0 = .ok value

def BreakerHolds (env : Environment ι V E) : ℕ → List (StepDefinition ι) → Prop
  | _, [] => True
  | failures, stepDef :: rest =>
    failures < circuitBreakerThreshold ∧ Returns env stepDef ∧ BreakerHolds env
        (if env.compensatedFailure stepDef.id none 0 = none then 0
          else failures + 1) rest

/-- The condition on the answers of the calls under which a policy carries out
the compensations of all completed steps without knowing their layers. -/
def Restores (env : Environment ι V E) (saga : SagaDefinition ι)
    (completed : List ι) : CompensationPolicy → Prop
  | .strictSequential =>
    ∀ step ∈ completed, ∀ stepDef, saga.compensable? step = some stepDef →
      ReachedInSequence env saga completed step ∧ Returns env stepDef
  | .groupedParallel => ∀ step ∈ completed, ¬ saga.Compensable step
  | .retryWithBackoff =>
    ∀ step ∈ completed, ∀ stepDef, saga.compensable? step = some stepDef →
      ReachedByRetry env saga completed step ∧
        ∃ attempt : ℕ, (attempt : ℤ) < compensationMaxRetries stepDef ∧
          ∃ value, env.invokeCompensation stepDef attempt = .ok value
  | .circuitBreaker =>
    BreakerHolds env 0 (completed.reverse.filterMap saga.compensable?)
  | .bestEffortParallel =>
    ∀ step ∈ completed, ∀ stepDef, saga.compensable? step = some stepDef → Returns env stepDef

end Restores

section Queries

variable [DecidableEq ι] {env : Environment ι V E} {saga : SagaDefinition ι}

variable {stepDef : StepDefinition ι}

omit [DecidableEq ι] in
theorem isOk_iff {attempt : ℕ} : (env.invokeCompensation stepDef attempt).isOk = true ↔
      ∃ value, env.invokeCompensation stepDef attempt = .ok value := by
  cases env.invokeCompensation stepDef attempt with
  | ok value => simp [Except.isOk, Except.toBool]
  | error error => simp [Except.isOk, Except.toBool]

variable {step : ι}

theorem recovers_iff {query : CompensationQuery ι E} : query.recovers env step = true ↔
      ∃ stepDef attempt, query = .invoke stepDef attempt ∧ stepDef.id = step ∧
        ∃ value, env.invokeCompensation stepDef attempt = .ok value := by
  cases query with
  | invoke stepDef attempt =>
    unfold CompensationQuery.recovers
    rw [Bool.and_eq_true, decide_eq_true_eq, isOk_iff]
    constructor
    · intro h
      exact ⟨stepDef, attempt, rfl, h⟩
    · intro h
      obtain ⟨_, _, hquery, hrest⟩ := h
      cases hquery
      exact hrest
  | _ => simp [CompensationQuery.recovers]

theorem step_of_recovers {query : CompensationQuery ι E}
    (h : query.recovers env step = true) : query.step? = some step := by
  obtain ⟨stepDef, attempt, hquery, hid, _⟩ := recovers_iff.mp h
  rw [hquery, ← hid]
  rfl

variable {completed : List ι}

theorem recovered_iff_weight {policy : CompensationPolicy}
    {layers : List (List ι)} (hlone : policy = .groupedParallel →
      LoneFailure env saga completed layers) {schedule : List CrewPick}
    (hschedule : .cancelCaller ∉ schedule)
    (hdone : (compensation env saga policy completed layers
      schedule).state.main.isDone = true) (step : ι) :
    Recovered step (compensation env saga policy completed layers schedule).trace ↔
      0 < env.compensationRules.weight (CompensationQuery.recovers env step)
        ((compensate env saga policy completed layers).queries env.compensationAnswer) := by
  obtain ⟨_, _, hanswers⟩ := agreeable_execute (agreeable_compensate hlone)
    (CompensationQuery.recovers env step) hschedule hdone
  have hweight : (compensation env saga policy completed layers schedule).trace.countP
        (Signal.answers (CompensationQuery.recovers env step)) =
      env.compensationRules.weight (CompensationQuery.recovers env step)
        ((compensate env saga policy completed layers).queries
          env.compensationAnswer) := hanswers
  have hforeseen := foreseen_execute env.compensationRules
    (compensate env saga policy completed layers) hschedule
  rw [← hweight, countP_pos_iff]
  constructor
  · intro h
    obtain ⟨stepDef, attempt, value, hmem, hid⟩ := h
    refine ⟨_, hmem, ?_⟩
    have hreply := hforeseen _ _ hmem rfl
    exact recovers_iff.mpr ⟨stepDef, attempt, rfl, hid, answer_eq_ok hreply.symm⟩
  · intro h
    obtain ⟨signal, hmem, hcounted⟩ := h
    cases signal with
    | issued query => cases hcounted
    | answered query reply =>
      obtain ⟨stepDef, attempt, hquery, hid, value, hvalue⟩ :=
        recovers_iff.mp hcounted
      rw [hquery] at hmem
      have hreply := hforeseen _ _ hmem rfl
      have hanswer : reply = .ok (some value) := by
        rw [hreply]
        show env.compensationAnswer (.invoke stepDef attempt) = _
        rw [answer_invoke, hvalue]
      rw [hanswer] at hmem
      exact ⟨stepDef, attempt, some value, hmem, hid⟩

omit [DecidableEq ι] in
theorem weight_pos_of_single {counted : CompensationQuery ι E → Bool}
    {queries : List (CompensationQuery ι E)}
    (hsingle : ∀ query ∈ queries, Single query) :
    0 < env.compensationRules.weight counted queries ↔
      ∃ query ∈ queries, counted query = true := by
  rw [weight_of_single counted hsingle, countP_pos_iff]

theorem recovers_invokeOne {attempt : ℕ} {raiseOnError skipErrorHandler : Bool} :
    (∃ query ∈ (invokeOne env stepDef attempt raiseOnError
        skipErrorHandler).queries env.compensationAnswer,
      query.recovers env step = true) ↔
      stepDef.id = step ∧ ∃ value, env.invokeCompensation stepDef attempt = .ok value := by
  obtain ⟨asides, hasides, hqueries⟩ := @queries_invokeOne _ V _ env stepDef
    env.compensationAnswer attempt raiseOnError skipErrorHandler
  rw [hqueries]
  constructor
  · intro h
    obtain ⟨query, hmem, hrecovers⟩ := h
    obtain ⟨other, count, hquery, hid, hvalue⟩ := recovers_iff.mp hrecovers
    rcases mem_cons.mp hmem with hhead | haside
    · rw [hquery] at hhead
      cases hhead
      exact ⟨hid, hvalue⟩
    · have hquiet := (hasides query haside).quiet
      rw [hquery] at hquiet
      cases hquiet
  · intro h
    exact ⟨_, mem_cons_self, recovers_iff.mpr ⟨stepDef, attempt, rfl, h⟩⟩

theorem recovers_forEach {items : List ι} {body : ι → Compensating ι V E Unit}
    (halways : ∀ item, Async.Always (fun query => query.step? = some item) (body item)) :
    0 < env.compensationRules.weight (CompensationQuery.recovers env step)
        ((Async.forEach items body).queries env.compensationAnswer) ↔
      step ∈ Async.begun env.compensationAnswer body items ∧
        ∃ query ∈ (body step).queries env.compensationAnswer,
          query.recovers env step = true := by
  have howner : ∀ item, ∀ query ∈ (body item).queries env.compensationAnswer,
      query.step? = some item :=
    fun item => Coroutine.Always.mem_queries (halways item) _
  rw [Async.queries_forEach, weight_pos_of_single]
  · constructor
    · intro h
      obtain ⟨query, hmem, hrecovers⟩ := h
      obtain ⟨item, hitem, hquery⟩ := mem_flatMap.mp hmem
      have hsame := (howner item query hquery).symm.trans (step_of_recovers hrecovers)
      rw [Option.some.inj hsame] at hitem hquery
      exact ⟨hitem, query, hquery, hrecovers⟩
    · intro h
      obtain ⟨hbegun, query, hquery, hrecovers⟩ := h
      exact ⟨query, mem_flatMap.mpr ⟨step, hbegun, hquery⟩, hrecovers⟩
  · intro query hmem
    obtain ⟨item, _, hquery⟩ := mem_flatMap.mp hmem
    exact ⟨item, howner item query hquery⟩

theorem mem_begun_strict :
    step ∈ Async.begun env.compensationAnswer (strictRound env saga) completed.reverse ↔
      ReachedInSequence env saga completed step := by
  unfold ReachedInSequence
  rw [Async.mem_begun_reverse_iff]
  simp only [outcome_strictRound_eq_ok]

theorem recovers_retryOne : (∃ query ∈ (retryOne env stepDef).queries env.compensationAnswer,
      query.recovers env stepDef.id = true) ↔
      ∃ attempt : ℕ, (attempt : ℤ) < compensationMaxRetries stepDef ∧
        ∃ value, env.invokeCompensation stepDef attempt = .ok value := by
  have hfilter := filter_retryOne env stepDef
  obtain ⟨made, hle, hmade, _, hsettled⟩ := attempts_eq_range env stepDef
  have hinvoke : ∀ attempt, .invoke stepDef attempt ∈
      (retryOne env stepDef).queries env.compensationAnswer ↔ attempt < made := by
    intro attempt
    have hmem : .invoke stepDef attempt ∈
        ((retryOne env stepDef).queries env.compensationAnswer).filter
          (CompensationQuery.invokes stepDef.id) ↔ attempt < made := by
      rw [hfilter, hmade]
      simp
    rw [← hmem, mem_filter]
    simp [CompensationQuery.invokes, CompensationQuery.invoked?]
  constructor
  · intro h
    obtain ⟨query, hquery, hrecovers⟩ := h
    obtain ⟨other, attempt, hsame, hid, hvalue⟩ := recovers_iff.mp hrecovers
    have hmem : query ∈ ((retryOne env stepDef).queries env.compensationAnswer).filter
          (CompensationQuery.invokes stepDef.id) := by
      rw [mem_filter]
      refine ⟨hquery, ?_⟩
      rw [hsame]
      simp [CompensationQuery.invokes, CompensationQuery.invoked?, hid]
    rw [hfilter, hmade] at hmem
    obtain ⟨count, hcount, hinvoked⟩ := mem_map.mp hmem
    rw [hsame] at hinvoked
    cases hinvoked
    have hlt := mem_range.mp hcount
    exact ⟨attempt, by omega, hvalue⟩
  · intro h
    obtain ⟨attempt, hlt, hvalue⟩ := h
    by_cases hreached : attempt < made
    · exact ⟨_, (hinvoke attempt).mpr hreached, recovers_iff.mpr
        ⟨stepDef, attempt, rfl, rfl, hvalue⟩⟩
    · -- the loop has stopped before, at an attempt which did not fail
      obtain ⟨last, hlast, hnone⟩ := hsettled (by omega)
      have hok := (invokeOneFailure_eq_none.mp (attemptFailure_eq_none.mp hnone)).1
      exact ⟨_, (hinvoke last).mpr (by omega), recovers_iff.mpr
        ⟨stepDef, last, rfl, rfl, hok⟩⟩

def breakerRound (env : Environment ι V E) (stepDef : StepDefinition ι)
    (failures : ℕ) : Compensating ι V E ℕ :=
  Async.catching (do
      invokeOne env stepDef 0 true false
      pure 0)
    (exceptException fun _ => pure (failures + 1))

omit [DecidableEq ι] in
theorem breakerRound_spec (stepDef : StepDefinition ι) (failures : ℕ) :
    (breakerRound env stepDef failures).queries env.compensationAnswer =
        (invokeOne env stepDef 0 true false).queries env.compensationAnswer ∧
      (breakerRound env stepDef failures).outcome env.compensationAnswer =
        .ok (if env.invokeOneFailure stepDef 0 false = none then 0
          else failures + 1) := by
  have hinvoke := @outcome_invokeOne _ V _ env stepDef 0 false
  unfold breakerRound
  cases hfailure : env.invokeOneFailure stepDef 0 false with
  | none =>
    have hok : (invokeOne env stepDef 0 true false).outcome
        env.compensationAnswer = .ok () := by
      rw [hinvoke, hfailure]
      rfl
    have hbody : (do
        invokeOne env stepDef 0 true false
        pure 0 : Compensating ι V E ℕ).outcome env.compensationAnswer = .ok 0 := by
      rw [Async.outcome_bind_of_ok _ hok]
      rfl
    refine ⟨?_, ?_⟩
    · rw [Async.queries_catching_of_ok _ hbody,
        Async.queries_bind_of_ok _ hok, Async.queries_pure,
        append_nil]
    · rw [Async.outcome_catching_of_ok _ hbody]
      rfl
  | some error =>
    have herror : (invokeOne env stepDef 0 true false).outcome
        env.compensationAnswer = .error (.exception error) := by
      rw [hinvoke, hfailure]
      rfl
    have hbody : (do
        invokeOne env stepDef 0 true false
        pure 0 : Compensating ι V E ℕ).outcome env.compensationAnswer =
          .error (.exception error) :=
      Async.outcome_bind_of_error _ herror _
    refine ⟨?_, ?_⟩
    · rw [Async.queries_catching_of_error _ hbody, Async.queries_bind_of_error _ herror]
      exact append_nil _
    · rw [Async.outcome_catching_of_error _ hbody]
      rfl

variable {failures : ℕ}

theorem circuitBreakerLoop_of_open (hopen : circuitBreakerThreshold ≤ failures)
    (steps : List ι) :
    (circuitBreakerLoop env saga failures steps : Compensating ι V E Unit) = pure () := by
  cases steps with
  | nil => rfl
  | cons step rest => rw [circuitBreakerLoop, if_pos hopen]

def FirstOf (saga : SagaDefinition ι) (query : CompensationQuery ι E) :
    Prop :=
  ∀ stepDef attempt, query = .invoke stepDef attempt →
    attempt = 0 ∧ saga.compensable? stepDef.id = some stepDef

theorem firstOf_invokeOne (hstep : saga.compensable? step = some stepDef) :
    ∀ query ∈ (invokeOne env stepDef 0 true false).queries
        env.compensationAnswer, FirstOf saga query := by
  obtain ⟨asides, hasides, hqueries⟩ := @queries_invokeOne _ V _ env stepDef
    env.compensationAnswer 0 true false
  intro query hmem other attempt hquery
  rw [hqueries] at hmem
  rcases mem_cons.mp hmem with hhead | haside
  · rw [hquery] at hhead
    cases hhead
    rw [SagaDefinition.id_of_compensable? hstep]
    exact ⟨rfl, hstep⟩
  · have hquiet := (hasides query haside).quiet
    rw [hquery] at hquiet
    cases hquiet

theorem queries_circuitBreakerLoop_cons (hclosed : failures < circuitBreakerThreshold)
    (hstep : saga.compensable? step = some stepDef) (rest : List ι) :
    (circuitBreakerLoop env saga failures (step :: rest)).queries env.compensationAnswer =
      (invokeOne env stepDef 0 true false).queries env.compensationAnswer ++
        (circuitBreakerLoop env saga (if env.invokeOneFailure stepDef 0 false = none then 0
            else failures + 1) rest).queries env.compensationAnswer := by
  obtain ⟨hqueries, houtcome⟩ :=
    @breakerRound_spec _ V _ env stepDef failures
  rw [circuitBreakerLoop, if_neg (Nat.not_le_of_lt hclosed), hstep]
  dsimp only
  have hbind := Async.queries_bind_of_ok env.compensationAnswer houtcome
    (circuitBreakerLoop env saga · rest)
  rw [hqueries] at hbind
  exact hbind

theorem firstOf_circuitBreakerLoop (failures : ℕ) (steps : List ι) :
    ∀ query ∈ (circuitBreakerLoop env saga failures steps).queries
        env.compensationAnswer, FirstOf saga query := by
  induction steps generalizing failures with
  | nil =>
    intro query hmem
    cases hmem
  | cons step rest ih =>
    by_cases hclosed : failures < circuitBreakerThreshold
    · cases hstep : saga.compensable? step with
      | none =>
        rw [circuitBreakerLoop, if_neg (Nat.not_le_of_lt hclosed), hstep]
        exact ih failures
      | some stepDef =>
        rw [queries_circuitBreakerLoop_cons hclosed hstep]
        intro query hmem
        rcases mem_append.mp hmem with hhead | htail
        · exact firstOf_invokeOne hstep query hhead
        · exact ih _ query htail
    · rw [circuitBreakerLoop_of_open (Nat.le_of_not_lt hclosed)]
      intro query hmem
      cases hmem

theorem recovers_breaker_first (hclosed : failures < circuitBreakerThreshold)
    (hstep : saga.compensable? step = some stepDef) (rest : List ι) :
    (∃ query ∈ (circuitBreakerLoop env saga failures
        (step :: rest)).queries env.compensationAnswer,
      query.recovers env step = true) ↔ Returns env stepDef := by
  constructor
  · intro h
    obtain ⟨query, hmem, hrecovers⟩ := h
    obtain ⟨other, attempt, hquery, hother, hvalue⟩ :=
      recovers_iff.mp hrecovers
    obtain ⟨hzero, hsame⟩ := firstOf_circuitBreakerLoop failures
      (step :: rest) query hmem other attempt hquery
    rw [hother, hstep] at hsame
    rw [← Option.some.inj hsame, hzero] at hvalue
    exact hvalue
  · intro hreturns
    obtain ⟨query, hmem, hrecovers⟩ := recovers_invokeOne.mpr
      ⟨SagaDefinition.id_of_compensable? hstep, hreturns⟩
    rw [queries_circuitBreakerLoop_cons hclosed hstep]
    exact ⟨query, mem_append_left _ hmem, hrecovers⟩

theorem recovers_breaker_rest {other : ι} (hclosed : failures < circuitBreakerThreshold)
    (hstep : saga.compensable? step = some stepDef)
    (hreturns : Returns env stepDef) (hne : other ≠ step) (rest : List ι) :
    (∃ query ∈ (circuitBreakerLoop env saga failures
        (step :: rest)).queries env.compensationAnswer,
      query.recovers env other = true) ↔
      ∃ query ∈ (circuitBreakerLoop env saga
          (if env.compensatedFailure stepDef.id none 0 = none then 0
            else failures + 1) rest).queries env.compensationAnswer,
        query.recovers env other = true := by
  have hfailure : env.invokeOneFailure stepDef 0 false = none ↔
      env.compensatedFailure stepDef.id none 0 = none := by
    rw [invokeOneFailure_eq_none]
    exact and_iff_right hreturns
  rw [queries_circuitBreakerLoop_cons hclosed hstep]
  simp only [hfailure]
  constructor
  · intro h
    obtain ⟨query, hmem, hrecovers⟩ := h
    rcases mem_append.mp hmem with hhead | htail
    · have hid := (recovers_invokeOne.mp ⟨query, hhead, hrecovers⟩).1
      rw [SagaDefinition.id_of_compensable? hstep] at hid
      exact absurd hid.symm hne
    · exact ⟨query, htail, hrecovers⟩
  · intro h
    obtain ⟨query, hmem, hrecovers⟩ := h
    exact ⟨query, mem_append_right _ hmem, hrecovers⟩

theorem circuitBreakerLoop_of_none (hstep : saga.compensable? step = none) (rest : List ι) :
    (circuitBreakerLoop env saga failures (step :: rest) : Compensating ι V E Unit) =
      circuitBreakerLoop env saga failures rest := by
  by_cases hclosed : failures < circuitBreakerThreshold
  · rw [circuitBreakerLoop, if_neg (Nat.not_le_of_lt hclosed), hstep]
  · rw [circuitBreakerLoop_of_open (Nat.le_of_not_lt hclosed),
      circuitBreakerLoop_of_open (Nat.le_of_not_lt hclosed)]

theorem recovers_circuitBreakerLoop (failures : ℕ) {steps : List ι} (hnodup : steps.Nodup) :
    (∀ step ∈ steps, saga.Compensable step →
      ∃ query ∈ (circuitBreakerLoop env saga failures steps).queries
        env.compensationAnswer, query.recovers env step = true) ↔
      BreakerHolds env failures (steps.filterMap saga.compensable?) := by
  induction steps generalizing failures with
  | nil => simp [BreakerHolds]
  | cons step rest ih =>
    obtain ⟨hnotMem, hrest⟩ := nodup_cons.mp hnodup
    cases hstep : saga.compensable? step with
    | none =>
      rw [filterMap_cons_none hstep, ← ih failures hrest,
        circuitBreakerLoop_of_none hstep, forall_mem_cons]
      have hvacuous := SagaDefinition.not_compensable_of_none hstep
      exact and_iff_right fun h => absurd h hvacuous
    | some stepDef =>
      have hcompensable := SagaDefinition.compensable_of_some hstep
      rw [filterMap_cons_some hstep, BreakerHolds]
      by_cases hclosed : failures < circuitBreakerThreshold
      · rw [forall_mem_cons, recovers_breaker_first hclosed hstep, ← ih _ hrest]
        constructor
        · intro h
          refine ⟨hclosed, h.1 hcompensable, ?_⟩
          intro other hmem hother
          have hne : other ≠ step := fun hsame => hnotMem (hsame ▸ hmem)
          exact (recovers_breaker_rest hclosed hstep (h.1 hcompensable)
            hne rest).mp (h.2 other hmem hother)
        · intro h
          refine ⟨fun _ => h.2.1, ?_⟩
          intro other hmem hother
          have hne : other ≠ step := fun hsame => hnotMem (hsame ▸ hmem)
          exact (recovers_breaker_rest hclosed hstep h.2.1 hne
            rest).mpr (h.2.2 other hmem hother)
      · rw [circuitBreakerLoop_of_open (Nat.le_of_not_lt hclosed)]
        constructor
        · intro hall
          obtain ⟨query, hmem, _⟩ := hall step mem_cons_self hcompensable
          cases hmem
        · intro hholds
          exact absurd hholds.1 hclosed

theorem recovers_gather {steps : List (StepDefinition ι)} (returnExceptions : Bool) :
    0 < env.compensationRules.weight (CompensationQuery.recovers env step)
        [.gather steps returnExceptions] ↔
      ∃ stepDef ∈ steps, stepDef.id = step ∧ Returns env stepDef := by
  have hchildren : env.compensationRules.children (.gather steps returnExceptions) =
        some (steps.map (gatheredTask env returnExceptions)) :=
    gatheredTasks_gather steps returnExceptions
  have htask : ∀ stepDef : StepDefinition ι, 0 < (Coroutine.queries env.compensationAnswer
        (gatheredTask env returnExceptions stepDef)).countP
          (CompensationQuery.recovers env step) ↔
        stepDef.id = step ∧ Returns env stepDef := by
    intro stepDef
    have hscheduled : (perform (.scheduled stepDef.id) :
        Compensating ι V E Unit).outcome env.compensationAnswer = .ok () :=
      rfl
    have hqueries : Async.queries env.compensationAnswer
        (gatheredTask env returnExceptions stepDef) =
        .scheduled stepDef.id :: (invokeOne env stepDef 0
          (!returnExceptions) false).queries env.compensationAnswer := by
      unfold gatheredTask
      rw [Async.queries_bind_of_ok _ hscheduled, queries_perform]
      rfl
    have hcount : (Coroutine.queries env.compensationAnswer
        (gatheredTask env returnExceptions stepDef)).countP
          (CompensationQuery.recovers env step) =
        ((invokeOne env stepDef 0 (!returnExceptions) false).queries
          env.compensationAnswer).countP (CompensationQuery.recovers env step) := by
      rw [show Coroutine.queries env.compensationAnswer
        (gatheredTask env returnExceptions stepDef) = _ from hqueries]
      rfl
    rw [hcount, countP_pos_iff]
    exact recovers_invokeOne
  have hsum : env.compensationRules.childWeight (CompensationQuery.recovers env step)
        (steps.map (gatheredTask env returnExceptions)) =
      (steps.map fun stepDef => (Coroutine.queries env.compensationAnswer
        (gatheredTask env returnExceptions stepDef)).countP
          (CompensationQuery.recovers env step)).sum :=
    congrArg List.sum map_map
  have hweight : 0 < env.compensationRules.childWeight (CompensationQuery.recovers env step)
        (steps.map (gatheredTask env returnExceptions)) ↔
      ∃ stepDef ∈ steps, stepDef.id = step ∧ Returns env stepDef := by
    rw [hsum]
    clear hchildren hsum
    induction steps with
    | nil => simp
    | cons stepDef rest ih =>
      rw [map_cons, sum_cons, exists_mem_cons_iff, ← ih, ← htask stepDef]
      exact Nat.add_pos_iff_pos_or_pos
  unfold GatherRules.weight
  rw [map_singleton, sum_singleton, hchildren]
  rw [← hweight]
  exact iff_of_eq (congrArg (0 < ·) (Nat.zero_add _))

theorem forall_compensable_iff {property : ι → Prop} {wanted : ι → StepDefinition ι → Prop}
    (hsame : ∀ step ∈ completed, ∀ stepDef, saga.compensable? step = some stepDef →
        (property step ↔ wanted step stepDef)) :
    (∀ step ∈ completed, saga.Compensable step → property step) ↔ ∀ step ∈ completed, ∀ stepDef,
        saga.compensable? step = some stepDef → wanted step stepDef := by
  constructor
  · intro h step hmem stepDef hstep
    exact (hsame step hmem stepDef hstep).mp
      (h step hmem (SagaDefinition.compensable_of_some hstep))
  · intro h step hmem hcompensable
    obtain ⟨stepDef, hstep⟩ := Option.isSome_iff_exists.mp hcompensable
    exact (hsame step hmem stepDef hstep).mpr (h step hmem stepDef hstep)

theorem restores_iff {policy : CompensationPolicy} (hnodup : completed.Nodup) :
    (∀ step ∈ completed, saga.Compensable step →
      0 < env.compensationRules.weight (CompensationQuery.recovers env step)
        ((compensate env saga policy completed []).queries env.compensationAnswer)) ↔
      Restores env saga completed policy := by
  cases policy with
  | strictSequential =>
    apply forall_compensable_iff
    intro step _ stepDef hstep
    rw [compensate_strictSequential, recovers_forEach strictRound_always,
      mem_begun_strict, strictRound_of_some hstep, recovers_invokeOne]
    exact and_congr_right fun _ =>
      and_iff_right (SagaDefinition.id_of_compensable? hstep)
  | groupedParallel =>
    have hnothing : (compensate env saga .groupedParallel completed [] :
        Compensating ι V E Unit) = pure () := by
      cases completed with
      | nil => rfl
      | cons first rest => rfl
    rw [hnothing]
    show (∀ step ∈ completed, saga.Compensable step → 0 < 0) ↔
      ∀ step ∈ completed, ¬ saga.Compensable step
    simp
  | retryWithBackoff =>
    apply forall_compensable_iff
    intro step _ stepDef hstep
    have hid := SagaDefinition.id_of_compensable? hstep
    rw [compensate_retryWithBackoff, recovers_forEach retryRound_always]
    apply and_congr mem_begunSteps
    rw [retryRound_of_some hstep, ← hid]
    exact recovers_retryOne
  | circuitBreaker =>
    have hcode : (compensate env saga .circuitBreaker completed [] : Compensating ι V E Unit) =
        circuitBreakerLoop env saga 0 completed.reverse := by
      cases completed with
      | nil => rfl
      | cons first rest => rfl
    have hloop := @recovers_circuitBreakerLoop _ V E _ env saga 0
      completed.reverse (nodup_reverse.mpr hnodup)
    rw [hcode, Restores, ← hloop]
    simp only [mem_reverse]
    have hpos : ∀ step, 0 < env.compensationRules.weight (CompensationQuery.recovers env step)
          ((circuitBreakerLoop env saga 0 completed.reverse).queries
            env.compensationAnswer) ↔ _ := fun step =>
      weight_pos_of_single (Coroutine.Always.mem_queries
        (single_circuitBreakerLoop 0 completed.reverse) _)
    simp only [hpos]
  | bestEffortParallel =>
    apply forall_compensable_iff
    intro step hcompleted stepDef hstep
    have hmem : stepDef ∈ completed.filterMap saga.compensable? :=
      mem_filterMap.mpr ⟨step, hcompleted, hstep⟩
    have hcode : (compensate env saga .bestEffortParallel completed [] :
        Compensating ι V E Unit) =
        perform (.gather (completed.filterMap saga.compensable?) true) := by
      have hcompleted : completed.isEmpty = false := by
        cases completed with
        | nil => cases hmem
        | cons first rest => rfl
      have hsteps : (completed.filterMap saga.compensable?).isEmpty = false := by
        cases hlist : completed.filterMap saga.compensable? with
        | nil =>
          rw [hlist] at hmem
          cases hmem
        | cons first rest => rfl
      unfold compensate
      rw [if_neg (by simp [hcompleted])]
      dsimp only
      unfold bestEffortParallel
      rw [if_neg (by simp [hsteps])]
    rw [hcode, queries_perform, recovers_gather]
    constructor
    · intro h
      obtain ⟨other, hother, hid, hreturns⟩ := h
      obtain ⟨item, _, hitem⟩ := mem_filterMap.mp hother
      have hitemId := SagaDefinition.id_of_compensable? hitem
      rw [← hitemId, hid, hstep] at hitem
      rwa [Option.some.inj hitem]
    · intro hreturns
      exact ⟨stepDef, hmem, SagaDefinition.id_of_compensable? hstep, hreturns⟩

end Queries

end PyFly.Saga
