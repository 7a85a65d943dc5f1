import PyFly.CompensationAttempts
import Mathlib.Data.List.Range

/-!
# Retrying one compensation

The retry loop of `_retry_with_backoff` for a single step: which attempts are
made, which waits lie between them and which error is left at the end.
-/

namespace PyFly.Saga

open Library Transactional List

variable {ι V E : Type}

namespace Environment

variable (env : Environment ι V E) (stepDef : StepDefinition ι)

def attemptFailure (attempt : ℕ) : Option E :=
  env.invokeOneFailure stepDef attempt true

def attemptsMade : ℕ → ℕ → List ℕ
  | 0, _ => []
  | remaining + 1, attempt =>
    match env.attemptFailure stepDef attempt with
    | none => [attempt]
    | some _ => attempt :: attemptsMade remaining (attempt + 1)

def lastError : ℕ → ℕ → Option E → Option E
  | 0, _, error => error
  | remaining + 1, attempt, _ =>
    match env.attemptFailure stepDef attempt with
    | none => none
    | some error => lastError remaining (attempt + 1) (some error)

variable {env stepDef}

theorem attemptsMade_eq (remaining attempt : ℕ) : ∃ made ≤ remaining,
      env.attemptsMade stepDef remaining attempt = List.range' attempt made ∧
        (∀ other, other + 1 < made → (env.attemptFailure stepDef (attempt + other)).isSome) ∧
        (made < remaining → ∃ other, other + 1 = made ∧
          env.attemptFailure stepDef (attempt + other) = none) := by
  induction remaining generalizing attempt with
  | zero =>
    refine ⟨0, Nat.le_refl 0, rfl, ?_, ?_⟩
    · intro other hlt
      omega
    · intro hlt
      omega
  | succ remaining ih =>
    rw [attemptsMade]
    cases hfailure : env.attemptFailure stepDef attempt with
    | none =>
      refine ⟨1, by omega, rfl, ?_, ?_⟩
      · intro other hlt
        omega
      · intro _
        exact ⟨0, rfl, hfailure⟩
    | some error =>
      obtain ⟨made, hle, hmade, hfailed, hsettled⟩ := ih (attempt + 1)
      refine ⟨made + 1, by omega, ?_, ?_, ?_⟩
      · rw [hmade]
        rfl
      · intro other hlt
        cases other with
        | zero =>
          rw [Nat.add_zero, hfailure]
          rfl
        | succ other =>
          have hother := hfailed other (by omega)
          rwa [Nat.add_assoc, Nat.add_comm 1 other] at hother
      · intro hlt
        obtain ⟨other, heq, hnone⟩ := hsettled (by omega)
        refine ⟨other + 1, by omega, ?_⟩
        rwa [Nat.add_assoc, Nat.add_comm 1 other] at hnone

theorem isSome_lastError (remaining attempt : ℕ) (error : Option E) :
    (env.lastError stepDef remaining attempt error).isSome ↔
      (remaining = 0 → error.isSome) ∧ ∀ other < remaining,
        (env.attemptFailure stepDef (attempt + other)).isSome := by
  induction remaining generalizing attempt error with
  | zero => simp [lastError]
  | succ remaining ih =>
    rw [lastError]
    cases hfailure : env.attemptFailure stepDef attempt with
    | none =>
      constructor
      · intro h
        cases h
      · intro h
        have hfirst := h.2 0 (by omega)
        rw [Nat.add_zero, hfailure] at hfirst
        cases hfirst
    | some failure =>
      rw [ih]
      constructor
      · intro h
        refine ⟨by omega, ?_⟩
        intro other hlt
        cases other with
        | zero =>
          rw [Nat.add_zero, hfailure]
          rfl
        | succ other =>
          have hother := h.2 other (by omega)
          rwa [Nat.add_assoc, Nat.add_comm 1 other] at hother
      · intro h
        refine ⟨fun _ => rfl, ?_⟩
        intro other hlt
        have hother := h.2 (other + 1) (by omega)
        rwa [Nat.add_comm other 1, ← Nat.add_assoc] at hother

end Environment

namespace Compensating

variable (env : Environment ι V E) (stepDef : StepDefinition ι)
variable (maxRetries backoffMs : ℤ)

def waitAfter (attempt : ℕ) : List (CompensationQuery ι E) :=
  match env.attemptFailure stepDef attempt with
  | none => []
  | some _ =>
    if (attempt : ℤ) < maxRetries - 1 then
      [.sleep stepDef.id attempt (backoffMs * 2 ^ attempt)]
    else []

def attemptQueries (attempt : ℕ) : List (CompensationQuery ι E) :=
  (invokeOne env stepDef attempt true true).queries env.compensationAnswer ++
    waitAfter env stepDef maxRetries backoffMs attempt

theorem outcome_retryAttempt (attempt : ℕ) :
    (retryAttempt env stepDef maxRetries backoffMs attempt).outcome env.compensationAnswer =
      .ok (env.attemptFailure stepDef attempt) := by
  have hinvoke := outcome_invokeOne env stepDef attempt true
  unfold retryAttempt
  rw [Async.outcome_catching, Async.outcome_bind, hinvoke]
  unfold Environment.attemptFailure
  cases env.invokeOneFailure stepDef attempt true with
  | none => rfl
  | some error =>
    show Async.outcome env.compensationAnswer (do
      if (attempt : ℤ) < maxRetries - 1 then
        perform (.sleep stepDef.id attempt (backoffMs * 2 ^ attempt))
      else pure ()
      pure (some error)) = _
    by_cases hlast : (attempt : ℤ) < maxRetries - 1
    · rw [if_pos hlast]
      rfl
    · rw [if_neg hlast]
      rfl

theorem queries_retryAttempt (attempt : ℕ) :
    (retryAttempt env stepDef maxRetries backoffMs attempt).queries env.compensationAnswer =
      attemptQueries env stepDef maxRetries backoffMs attempt := by
  have hinvoke := outcome_invokeOne env stepDef attempt true
  unfold retryAttempt attemptQueries waitAfter Environment.attemptFailure
  rw [Async.queries_catching, Async.queries_bind, Async.outcome_bind, hinvoke]
  cases env.invokeOneFailure stepDef attempt true with
  | none =>
    show (_ ++ []) ++ [] = _ ++ []
    rw [append_nil]
  | some error =>
    show (_ ++ []) ++ Async.queries env.compensationAnswer (do
      if (attempt : ℤ) < maxRetries - 1 then
        perform (.sleep stepDef.id attempt (backoffMs * 2 ^ attempt))
      else pure ()
      pure (some error)) = _
    rw [append_nil]
    by_cases hlast : (attempt : ℤ) < maxRetries - 1
    · simp only [if_pos hlast]
      rfl
    · simp only [if_neg hlast]
      rfl

theorem outcome_retryAttempts (remaining attempt : ℕ) (error : Option E) :
    (retryAttempts env stepDef maxRetries backoffMs remaining attempt
        error).outcome env.compensationAnswer =
      .ok (env.lastError stepDef remaining attempt error) := by
  induction remaining generalizing attempt error with
  | zero => rfl
  | succ remaining ih =>
    have hattempt :=
      outcome_retryAttempt env stepDef maxRetries backoffMs attempt
    rw [retryAttempts, Async.outcome_bind_of_ok _ hattempt, Environment.lastError]
    cases env.attemptFailure stepDef attempt with
    | none => rfl
    | some failure => exact ih (attempt + 1) (some failure)

theorem queries_retryAttempts (remaining attempt : ℕ) (error : Option E) :
    (retryAttempts env stepDef maxRetries backoffMs remaining attempt
        error).queries env.compensationAnswer =
      (env.attemptsMade stepDef remaining attempt).flatMap
        (attemptQueries env stepDef maxRetries backoffMs) := by
  induction remaining generalizing attempt error with
  | zero => rfl
  | succ remaining ih =>
    have hattempt :=
      outcome_retryAttempt env stepDef maxRetries backoffMs attempt
    rw [retryAttempts, Async.queries_bind_of_ok _ hattempt,
      queries_retryAttempt, Environment.attemptsMade]
    cases env.attemptFailure stepDef attempt with
    | none => simp
    | some failure =>
      rw [flatMap_cons]
      congr 1
      exact ih (attempt + 1) (some failure)

/-! ## The whole loop body -/

def Settles (env : Environment ι V E) (stepDef : StepDefinition ι) : Prop :=
  compensationMaxRetries stepDef ≤ 0 ∨
    ∃ attempt : ℕ, (attempt : ℤ) < compensationMaxRetries stepDef ∧
      env.attemptFailure stepDef attempt = none

def attempts : List ℕ :=
  env.attemptsMade stepDef (compensationMaxRetries stepDef).toNat 0

def finalError : Option E :=
  env.lastError stepDef (compensationMaxRetries stepDef).toNat 0 none

theorem finalError_eq_none : finalError env stepDef = none ↔ Settles env stepDef := by
  have hsome := @Environment.isSome_lastError _ _ _ env stepDef
    (compensationMaxRetries stepDef).toNat 0 none
  unfold finalError Settles
  rw [← Option.not_isSome_iff_eq_none, hsome]
  constructor
  · intro h
    by_contra hnone
    push Not at hnone
    apply h
    refine ⟨by omega, ?_⟩
    intro other hlt
    rw [Nat.zero_add]
    exact Option.isSome_iff_ne_none.mpr (hnone.2 other (by omega))
  · intro h hall
    rcases h with hle | ⟨attempt, hlt, hnone⟩
    · exact absurd (hall.1 (by omega)) (by simp)
    · have hfailed := hall.2 attempt (by omega)
      rw [Nat.zero_add, hnone] at hfailed
      cases hfailed

def giveUp (error : E) : Compensating ι V E Unit := do
  emitCompensated env stepDef.id (compensationMaxRetries stepDef).toNat (some error)
  handleError env stepDef.id error
  Async.throw (.exception error)

theorem retryOne_eq : retryOne env stepDef =
    retryAttempts env stepDef (compensationMaxRetries stepDef) (compensationBackoff stepDef)
        (compensationMaxRetries stepDef).toNat 0 none >>= fun lastError =>
      match lastError with
      | none => pure ()
      | some error => giveUp env stepDef error := rfl

theorem giveUp_always (error : E) :
    Async.Always (Aside stepDef) (giveUp env stepDef error) := by
  apply Async.Always.bind (emitCompensated_always _ (some error))
  intro _
  apply Async.Always.bind (handleError_always error)
  intro _
  trivial

theorem outcome_giveUp (error : E) :
    (giveUp env stepDef error).outcome env.compensationAnswer ≠ .ok () := by
  unfold giveUp
  rw [Async.outcome_bind, outcome_emitCompensated]
  cases env.compensatedFailure stepDef.id (some error)
      (compensationMaxRetries stepDef).toNat with
  | some failure =>
    intro h
    cases h
  | none =>
    show Async.outcome env.compensationAnswer (_ >>= _) ≠ _
    rw [Async.outcome_bind, outcome_handleError]
    cases env.handlerFailure stepDef.id error with
    | none =>
      intro h
      cases h
    | some failure =>
      intro h
      cases h

theorem outcome_retryOne_eq_ok :
    (retryOne env stepDef).outcome env.compensationAnswer = .ok () ↔ Settles env stepDef := by
  have hattempts := outcome_retryAttempts env stepDef
    (compensationMaxRetries stepDef) (compensationBackoff stepDef)
    (compensationMaxRetries stepDef).toNat 0 none
  rw [← finalError_eq_none, retryOne_eq, Async.outcome_bind_of_ok _ hattempts]
  unfold finalError
  cases env.lastError stepDef (compensationMaxRetries stepDef).toNat 0 none with
  | none => simp
  | some error =>
    simp only [reduceCtorEq, iff_false]
    exact outcome_giveUp env stepDef error

theorem queries_retryOne : ∃ asides, (∀ query ∈ asides, Aside stepDef query) ∧
      (retryOne env stepDef).queries env.compensationAnswer = (attempts env stepDef).flatMap
          (attemptQueries env stepDef (compensationMaxRetries stepDef)
            (compensationBackoff stepDef)) ++ asides := by
  have hattempts := outcome_retryAttempts env stepDef
    (compensationMaxRetries stepDef) (compensationBackoff stepDef)
    (compensationMaxRetries stepDef).toNat 0 none
  rw [retryOne_eq, Async.queries_bind_of_ok _ hattempts, queries_retryAttempts]
  cases env.lastError stepDef (compensationMaxRetries stepDef).toNat 0 none with
  | none =>
    refine ⟨[], ?_, rfl⟩
    intro query hmem
    cases hmem
  | some error =>
    exact ⟨_, Coroutine.Always.mem_queries (giveUp_always env stepDef error)
      env.compensationAnswer, rfl⟩

theorem retryOne_always :
    Async.Always (fun query => query.step? = some stepDef.id) (retryOne env stepDef) := by
  have hattempt : ∀ attempt, Async.Always
      (fun query : CompensationQuery ι E => query.step? = some stepDef.id)
      (retryAttempt env stepDef (compensationMaxRetries stepDef)
        (compensationBackoff stepDef) attempt) := by
    intro attempt
    apply Async.Always.catching
    · exact Async.Always.bind (invokeOne_always attempt true true) fun _ => trivial
    · intro fault
      cases fault with
      | cancelled => trivial
      | exception error =>
        show Async.Always _ (do
          if (attempt : ℤ) < compensationMaxRetries stepDef - 1 then
            perform (.sleep stepDef.id attempt (compensationBackoff stepDef * 2 ^ attempt))
          else pure ()
          pure (some error))
        by_cases hlast : (attempt : ℤ) < compensationMaxRetries stepDef - 1
        · rw [if_pos hlast]
          exact Async.Always.bind (perform_always rfl) fun _ => trivial
        · rw [if_neg hlast]
          trivial
  have hattempts : ∀ remaining attempt error, Async.Always
      (fun query : CompensationQuery ι E => query.step? = some stepDef.id)
      (retryAttempts env stepDef (compensationMaxRetries stepDef)
        (compensationBackoff stepDef) remaining attempt error) := by
    intro remaining
    induction remaining with
    | zero =>
      intro attempt error
      trivial
    | succ remaining ih =>
      intro attempt error
      apply Async.Always.bind (hattempt attempt)
      intro lastError
      cases lastError with
      | none => trivial
      | some failure => exact ih (attempt + 1) (some failure)
  rw [retryOne_eq]
  apply Async.Always.bind (hattempts _ 0 none)
  intro lastError
  cases lastError with
  | none => trivial
  | some error =>
    exact Coroutine.Always.imp (fun _ haside => haside.step) (giveUp_always env stepDef error)

/-! ## Invocations and waits of one step -/

theorem filter_asides {queries : List (CompensationQuery ι E)} [DecidableEq ι] (step : ι)
    (haside : ∀ query ∈ queries, Aside stepDef query) :
    queries.filter (CompensationQuery.invokes step) = [] := by
  rw [filter_eq_nil_iff]
  intro query hmem
  simp [CompensationQuery.invokes, (haside query hmem).quiet]

theorem delays_asides {queries : List (CompensationQuery ι E)}
    (haside : ∀ query ∈ queries, Aside stepDef query) :
    queries.filterMap CompensationQuery.delay? = [] := by
  rw [filterMap_eq_nil_iff]
  intro query hmem
  exact (haside query hmem).awake

section Projections

variable [DecidableEq ι]

theorem filter_invokeOne (answer : CompensationQuery ι E → CompensationReply V E) (attempt : ℕ)
    (raiseOnError skipErrorHandler : Bool) :
    ((invokeOne env stepDef attempt raiseOnError skipErrorHandler).queries
        answer).filter (CompensationQuery.invokes stepDef.id) =
      [.invoke stepDef attempt] := by
  obtain ⟨asides, haside, hqueries⟩ :=
    @queries_invokeOne _ _ _ env stepDef answer attempt raiseOnError skipErrorHandler
  rw [hqueries, filter_cons, filter_asides stepDef stepDef.id haside]
  simp [CompensationQuery.invokes, CompensationQuery.invoked?]

theorem filter_attemptQueries (attempt : ℕ) :
    (attemptQueries env stepDef maxRetries backoffMs attempt).filter
        (CompensationQuery.invokes stepDef.id) =
      [.invoke stepDef attempt] := by
  unfold attemptQueries
  rw [filter_append, filter_invokeOne]
  have hwait : (waitAfter env stepDef maxRetries backoffMs attempt).filter
      (CompensationQuery.invokes stepDef.id) = [] := by
    unfold waitAfter
    cases env.attemptFailure stepDef attempt with
    | none => rfl
    | some error =>
      by_cases hlast : (attempt : ℤ) < maxRetries - 1
      · simp only [if_pos hlast]
        simp [CompensationQuery.invokes, CompensationQuery.invoked?]
      · simp only [if_neg hlast]
        rfl
  rw [hwait]
  rfl

theorem filter_retryOne : ((retryOne env stepDef).queries env.compensationAnswer).filter
        (CompensationQuery.invokes stepDef.id) =
      (attempts env stepDef).map (CompensationQuery.invoke stepDef) := by
  obtain ⟨asides, haside, hqueries⟩ := queries_retryOne env stepDef
  rw [hqueries, filter_append, filter_asides stepDef stepDef.id haside, append_nil]
  induction attempts env stepDef with
  | nil => rfl
  | cons attempt rest ih =>
    rw [flatMap_cons, filter_append, filter_attemptQueries, ih]
    rfl

end Projections

theorem delays_attemptQueries (attempt : ℕ) :
    (attemptQueries env stepDef maxRetries backoffMs attempt).filterMap
        CompensationQuery.delay? =
      if (env.attemptFailure stepDef attempt).isSome ∧
          (attempt : ℤ) < maxRetries - 1 then
        [backoffMs * 2 ^ attempt]
      else [] := by
  obtain ⟨asides, haside, hqueries⟩ :=
    @queries_invokeOne _ _ _ env stepDef env.compensationAnswer attempt true true
  unfold attemptQueries waitAfter
  rw [hqueries, filterMap_append, filterMap_cons, delays_asides stepDef haside]
  cases env.attemptFailure stepDef attempt with
  | none => simp [CompensationQuery.delay?]
  | some error =>
    by_cases hlast : (attempt : ℤ) < maxRetries - 1
    · simp [hlast, CompensationQuery.delay?]
    · simp [hlast, CompensationQuery.delay?]

theorem attempts_eq_range : ∃ made ≤ (compensationMaxRetries stepDef).toNat,
      attempts env stepDef = List.range made ∧ (∀ other, other + 1 < made →
          (env.attemptFailure stepDef other).isSome) ∧
        (made < (compensationMaxRetries stepDef).toNat → ∃ other, other + 1 = made ∧
            env.attemptFailure stepDef other = none) := by
  obtain ⟨made, hle, hmade, hfailed, hsettled⟩ :=
    @Environment.attemptsMade_eq _ _ _ env stepDef (compensationMaxRetries stepDef).toNat 0
  simp only [Nat.zero_add] at hfailed hsettled
  refine ⟨made, hle, ?_, hfailed, hsettled⟩
  rw [range_eq_range']
  exact hmade

/-- The wait after the attempt number `k` is the backoff times `2 ^ k`, and
every attempt but the last is followed by its wait. -/
theorem delays_retryOne :
    ((retryOne env stepDef).queries env.compensationAnswer).filterMap CompensationQuery.delay? =
      (List.range ((attempts env stepDef).length - 1)).map fun attempt =>
        compensationBackoff stepDef * 2 ^ attempt := by
  obtain ⟨asides, haside, hqueries⟩ := queries_retryOne env stepDef
  obtain ⟨made, hle, hmade, hfailed, hsettled⟩ :=
    attempts_eq_range env stepDef
  rw [hqueries, filterMap_append, delays_asides stepDef haside,
    append_nil, hmade, filterMap_flatMap]
  simp only [delays_attemptQueries]
  cases made with
  | zero => rfl
  | succ last =>
    have hlast : ¬ ((env.attemptFailure stepDef last).isSome ∧
        (last : ℤ) < compensationMaxRetries stepDef - 1) := by
      rintro ⟨hsome, hlt⟩
      obtain ⟨other, hother, hnone⟩ := hsettled (by omega)
      have hsame : other = last := by omega
      rw [← hsame, hnone] at hsome
      cases hsome
    rw [range_succ, flatMap_append, flatMap_singleton,
      if_neg hlast, append_nil, length_append, length_range,
      length_singleton, Nat.add_sub_cancel, map_eq_flatMap]
    apply flatMap_congr
    intro attempt hmem
    have hlt := mem_range.mp hmem
    have hsome := hfailed attempt (by omega)
    rw [if_pos ⟨hsome, by omega⟩]

end Compensating

end PyFly.Saga
