import PyFly.CompensationRecovery

/-!
# The contract of the compensator

A normal return means that every compensation was carried out, and retrying
keeps to its count, its waits and its first success.  A non-positive
`compensation_retry` skips a step silently, and an event port which raises
after a successful invocation makes the retry loop invoke it again; these two
are the only exceptions.
-/

namespace PyFly.Saga

open Library Transactional Compensating List

variable {ι V E : Type}

section Contract

variable [DecidableEq ι]

def waitsOf (step : ι) (trace : List (CompensationSignal ι V E)) : List ℤ :=
  trace.filterMap (Signal.issuedView fun query =>
    if query.step? = some step then query.delay? else none)

structure RetryDiscipline (stepDef : StepDefinition ι)
    (trace : List (CompensationSignal ι V E)) : Prop where
  bounded : trace.countP (Signal.issues (CompensationQuery.invokes stepDef.id)) ≤
    (compensationMaxRetries stepDef).toNat
  stops : ∀ before query value after, trace = before ++ .answered query (.ok value) :: after →
    query.invokes stepDef.id = true →
    ∀ later, .issued later ∈ after → later.invokes stepDef.id = false
  waits : ∀ k delayMs, (waitsOf stepDef.id trace)[k]? = some delayMs →
    delayMs = compensationBackoff stepDef * 2 ^ k

structure Dutiful (saga : SagaDefinition ι) (policy : CompensationPolicy)
    (completed : List ι)
    (execution : Execution (Crew (CompensationQuery ι E) (CompensationReply V E)
        (Except (Fault E) Unit) (Except (Fault E) Unit))
      (CompensationSignal ι V E)) : Prop where
  returned : execution.state.main = .done (.ok ()) →
    ∀ step ∈ completed, saga.Compensable step → Recovered step execution.trace
  retried : policy = .retryWithBackoff → ∀ step ∈ completed, ∀ stepDef,
    saga.compensable? step = some stepDef → RetryDiscipline stepDef execution.trace

def Repeats (env : Environment ι V E) (stepDef : StepDefinition ι) : Prop :=
  ∃ attempt : ℕ, (attempt : ℤ) + 1 < compensationMaxRetries stepDef ∧
    (∀ earlier < attempt, (env.attemptFailure stepDef earlier).isSome) ∧
    (∃ value, env.invokeCompensation stepDef attempt = .ok value) ∧
    (env.compensatedFailure stepDef.id none attempt).isSome

def ReachedByRetry (env : Environment ι V E) (saga : SagaDefinition ι)
    (completed : List ι) (step : ι) : Prop :=
  ∃ earlier later, completed = earlier ++ step :: later ∧
    ∀ other ∈ later, ∀ stepDef, saga.compensable? other = some stepDef → Settles env stepDef

structure RetrySound (env : Environment ι V E) (saga : SagaDefinition ι)
    (completed : List ι) : Prop where
  once : ∀ step stepDef, ReachedByRetry env saga completed step →
    saga.compensable? step = some stepDef → ¬ Repeats env stepDef
  counted : (∀ step ∈ completed, ∀ stepDef, saga.compensable? step = some stepDef →
      1 ≤ compensationMaxRetries stepDef) ∨
    ∃ step ∈ completed, ∃ stepDef, saga.compensable? step = some stepDef ∧ ¬ Settles env stepDef

end Contract

section Retrying

variable [DecidableEq ι] {env : Environment ι V E} {saga : SagaDefinition ι}

def retryRound (env : Environment ι V E) (saga : SagaDefinition ι)
    (step : ι) : Compensating ι V E Unit :=
  match saga.compensable? step with
  | none => pure ()
  | some stepDef => retryOne env stepDef

variable {step : ι} {stepDef : StepDefinition ι}

theorem retryRound_of_some (hstep : saga.compensable? step = some stepDef) :
    retryRound env saga step = retryOne env stepDef := by
  unfold retryRound
  rw [hstep]

theorem retryRound_always (step : ι) :
    Async.Always (fun query => query.step? = some step) (retryRound env saga step) := by
  unfold retryRound
  cases hstep : saga.compensable? step with
  | none => trivial
  | some stepDef =>
    have halways := retryOne_always env stepDef
    rwa [SagaDefinition.id_of_compensable? hstep] at halways

theorem outcome_retryRound_eq_ok :
    (retryRound env saga step).outcome env.compensationAnswer = .ok () ↔
      ∀ stepDef, saga.compensable? step = some stepDef → Settles env stepDef := by
  unfold retryRound
  cases hstep : saga.compensable? step with
  | none => simp
  | some stepDef =>
    dsimp only
    rw [outcome_retryOne_eq_ok]
    simp

theorem filterMap_rounds {γ : Type} {items : List ι} (hnodup : items.Nodup)
    {queries : ι → List (CompensationQuery ι E)} (step : ι)
    (view : CompensationQuery ι E → Option γ)
    (howner : ∀ item, ∀ query ∈ queries item, query.step? = some item)
    (hview : ∀ query, query.step? ≠ some step → view query = none) :
    (items.flatMap queries).filterMap view =
      if step ∈ items then (queries step).filterMap view else [] := by
  have hother : ∀ item, item ≠ step → (queries item).filterMap view = [] := by
    intro item hne
    rw [filterMap_eq_nil_iff]
    intro query hmem
    apply hview
    rw [howner item query hmem]
    intro hsame
    exact hne (Option.some.inj hsame)
  induction items with
  | nil => rfl
  | cons item rest ih =>
    obtain ⟨hnotMem, hrest⟩ := nodup_cons.mp hnodup
    rw [flatMap_cons, filterMap_append, ih hrest]
    by_cases hitem : item = step
    · subst hitem
      simp [hnotMem]
    · rw [hother item hitem]
      have hne : step ≠ item := fun h => hitem h.symm
      simp [hne]

def begunSteps (env : Environment ι V E) (saga : SagaDefinition ι)
    (completed : List ι) : List ι :=
  Async.begun env.compensationAnswer (retryRound env saga) completed.reverse

variable {completed : List ι}

theorem mem_begunSteps : step ∈ begunSteps env saga completed ↔
      ReachedByRetry env saga completed step := by
  unfold begunSteps ReachedByRetry
  rw [Async.mem_begun_reverse_iff]
  simp only [outcome_retryRound_eq_ok]

theorem compensate_retryWithBackoff (env : Environment ι V E)
    (saga : SagaDefinition ι) (completed : List ι)
    (layers : List (List ι)) :
    compensate env saga .retryWithBackoff completed layers =
      Async.forEach completed.reverse (retryRound env saga) := by
  cases completed with
  | nil => rfl
  | cons first rest => rfl

omit [DecidableEq ι] in
theorem gatheredTasks_of_step {query : CompensationQuery ι E}
    (h : query.step? = some step) : env.gatheredTasks query = none := by
  cases query with
  | gather steps returnExceptions => cases h
  | _ => rfl

theorem retry_plain (env : Environment ι V E)
    (saga : SagaDefinition ι) (completed : List ι) (layers : List (List ι)) :
    (compensate env saga .retryWithBackoff completed layers).Always
      fun query => env.compensationRules.children query = none := by
  rw [compensate_retryWithBackoff]
  apply Async.Always.forEach
  intro step _
  exact Coroutine.Always.imp (fun _ hstep => gatheredTasks_of_step hstep)
    (retryRound_always step)

def retryQueries (env : Environment ι V E) (saga : SagaDefinition ι)
    (completed : List ι) : List (CompensationQuery ι E) :=
  (Async.forEach completed.reverse (retryRound env saga)).queries env.compensationAnswer

theorem retryQueries_eq (completed : List ι) : retryQueries env saga completed =
      (begunSteps env saga completed).flatMap fun step =>
        (retryRound env saga step).queries env.compensationAnswer :=
  Async.queries_forEach _ _

theorem begunSteps_nodup (env : Environment ι V E) (saga : SagaDefinition ι)
    (hnodup : completed.Nodup) :
    (begunSteps env saga completed).Nodup :=
  (nodup_reverse.mpr hnodup).sublist (Async.begun_prefix _ _).sublist

theorem retryRound_owner (env : Environment ι V E) (saga : SagaDefinition ι) (step : ι) :
    ∀ query ∈ (retryRound env saga step).queries env.compensationAnswer,
      query.step? = some step :=
  Coroutine.Always.mem_queries (retryRound_always step) _

theorem step_of_invokes {query : CompensationQuery ι E}
    (h : query.invokes step = true) : query.step? = some step := by
  cases query with
  | invoke stepDef attempt => exact of_decide_eq_true h
  | _ => simp [CompensationQuery.invokes, CompensationQuery.invoked?] at h

theorem filter_retryQueries (env : Environment ι V E) (hnodup : completed.Nodup)
    (hstep : saga.compensable? step = some stepDef) :
    (retryQueries env saga completed).filter (CompensationQuery.invokes step) =
      if step ∈ begunSteps env saga completed then
        (attempts env stepDef).map (CompensationQuery.invoke stepDef)
      else [] := by
  have hview : ∀ query : CompensationQuery ι E, query.step? ≠ some step →
      Option.guard (fun query => query.invokes step) query = none := by
    intro query hne
    rw [Option.guard_eq_none_iff, ← Bool.not_eq_true]
    intro hinvokes
    exact hne (step_of_invokes hinvokes)
  have hrounds := filterMap_rounds (begunSteps_nodup env saga hnodup) step _
    (retryRound_owner env saga) hview
  have hid := SagaDefinition.id_of_compensable? hstep
  rw [retryQueries_eq, ← filterMap_eq_filter, hrounds, filterMap_eq_filter]
  rw [retryRound_of_some hstep, ← hid, filter_retryOne]

theorem waits_retryQueries (env : Environment ι V E) (hnodup : completed.Nodup)
    (hstep : saga.compensable? step = some stepDef) :
    (retryQueries env saga completed).filterMap (fun query =>
        if query.step? = some step then query.delay? else none) =
      if step ∈ begunSteps env saga completed then
        (List.range ((attempts env stepDef).length - 1)).map fun attempt =>
          compensationBackoff stepDef * 2 ^ attempt
      else [] := by
  have hrounds := filterMap_rounds (begunSteps_nodup env saga hnodup) step
    (fun query => if query.step? = some step then query.delay? else none)
    (retryRound_owner env saga) (fun query hne => if_neg hne)
  have hown : ((retryRound env saga step).queries
      env.compensationAnswer).filterMap (fun query =>
        if query.step? = some step then query.delay? else none) =
      ((retryRound env saga step).queries
        env.compensationAnswer).filterMap CompensationQuery.delay? := by
    apply filterMap_congr
    intro query hmem
    rw [if_pos (retryRound_owner env saga step query hmem)]
  rw [retryQueries_eq, hrounds, hown]
  rw [retryRound_of_some hstep, delays_retryOne]

variable {attempt : ℕ}

omit [DecidableEq ι] in
theorem isSome_attemptFailure_of_ok {value : V}
    (hok : env.invokeCompensation stepDef attempt = .ok value) :
    (env.attemptFailure stepDef attempt).isSome =
      (env.compensatedFailure stepDef.id none attempt).isSome := by
  unfold Environment.attemptFailure Environment.invokeOneFailure
  rw [hok]
  exact Option.isSome_map

omit [DecidableEq ι] in
theorem no_success_before_last (honce : ¬ Repeats env stepDef) {made : ℕ}
    (hmade : attempts env stepDef = List.range made) (hlt : attempt + 1 < made)
    (value : V) :
    env.invokeCompensation stepDef attempt ≠ .ok value := by
  obtain ⟨bound, hle, hbound, hfailed, _⟩ := attempts_eq_range env stepDef
  have hsame : made = bound := by
    have hlength := congrArg List.length (hmade.symm.trans hbound)
    simpa using hlength
  rw [hsame] at hlt
  intro hok
  have hfailure := hfailed attempt hlt
  rw [isSome_attemptFailure_of_ok hok] at hfailure
  apply honce
  refine ⟨attempt, by omega, ?_, ⟨value, hok⟩, hfailure⟩
  intro earlier hearlier
  exact hfailed earlier (by omega)

omit [DecidableEq ι] in
theorem answer_eq_ok {value : Option V}
    (h : env.compensationAnswer (.invoke stepDef attempt) = .ok value) :
    ∃ found, env.invokeCompensation stepDef attempt = .ok found := by
  rw [answer_invoke] at h
  cases hinvoke : env.invokeCompensation stepDef attempt with
  | ok found => exact ⟨found, rfl⟩
  | error error =>
    rw [hinvoke] at h
    cases h

theorem retryDiscipline_of_prefix (hnodup : completed.Nodup)
    (hstep : saga.compensable? step = some stepDef)
    (honce : ReachedByRetry env saga completed step →
      ¬ Repeats env stepDef) {trace : List (CompensationSignal ι V E)}
    (hpart : trace <+: script env.compensationAnswer (retryQueries env saga completed)) :
    RetryDiscipline stepDef trace := by
  have hid := SagaDefinition.id_of_compensable? hstep
  have hfilter := filter_retryQueries env hnodup hstep
  obtain ⟨made, hle, hmade, _, _⟩ := attempts_eq_range env stepDef
  obtain ⟨more, hmore⟩ := hpart
  constructor
  · have hscript := countP_issues_script env.compensationAnswer
      (CompensationQuery.invokes step) (retryQueries env saga completed)
    have hcount : (retryQueries env saga completed).countP (CompensationQuery.invokes step) =
        ((retryQueries env saga completed).filter (CompensationQuery.invokes step)).length :=
      countP_eq_length_filter
    rw [hcount, hfilter, ← hmore, countP_append] at hscript
    rw [hid]
    by_cases hbegun : step ∈ begunSteps env saga completed
    · rw [if_pos hbegun, hmade, length_map, length_range]
        at hscript
      omega
    · rw [if_neg hbegun, length_nil] at hscript
      omega
  · intro before query value after hsplit hinvokes later hlater
    rw [hid] at hinvokes ⊢
    have hlaterScript : .issued later ∈ after ++ more :=
      mem_append_left more hlater
    have hwhole := filter_script env.compensationAnswer
      (CompensationQuery.invokes step) (retryQueries env saga completed)
    rw [hfilter, ← hmore, hsplit, append_assoc, cons_append,
      filter_append, filter_cons] at hwhole
    have hquery : (Signal.answered query (.ok value) :
        CompensationSignal ι V E).query = query := rfl
    rw [hquery, if_pos hinvokes] at hwhole
    obtain ⟨earlier, rest, hqueries, hreply, hafter⟩ :=
      split_script hwhole.symm
    have hbegun : step ∈ begunSteps env saga completed := by
      by_contra hnot
      rw [if_neg hnot] at hqueries
      simp at hqueries
    rw [if_pos hbegun, hmade] at hqueries
    have hlength := congrArg List.length hqueries
    simp only [length_map, length_range, length_append, length_cons] at hlength
    have hat := congrArg (fun queries => queries[earlier.length]?) hqueries
    simp only [List.getElem?_map, List.getElem?_append_right (Nat.le_refl _),
      Nat.sub_self, List.getElem?_cons_zero] at hat
    rw [List.getElem?_range (by omega)] at hat
    have hsame : .invoke stepDef earlier.length = query :=
      Option.some.inj hat
    rw [← hsame] at hreply
    obtain ⟨found, hfound⟩ := answer_eq_ok hreply.symm
    have hnil : rest = [] := by
      by_contra hne
      have hpos := length_pos_iff.mpr hne
      exact no_success_before_last
        (honce (mem_begunSteps.mp hbegun)) hmade (by omega) found hfound
    rw [hnil] at hafter
    have hnone := filter_eq_nil_iff.mp hafter _ hlaterScript
    exact Bool.eq_false_iff.mpr hnone
  · intro k delayMs hget
    have hwaits := waits_retryQueries env hnodup hstep
    have hview := filterMap_script env.compensationAnswer
      (fun query => if query.step? = some step then query.delay? else none)
      (retryQueries env saga completed)
    rw [hwaits, ← hmore, filterMap_append] at hview
    unfold waitsOf at hget
    rw [hid] at hget
    obtain ⟨hlt, _⟩ := List.getElem?_eq_some_iff.mp hget
    rw [← List.getElem?_append_left hlt, hview] at hget
    by_cases hbegun : step ∈ begunSteps env saga completed
    · rw [if_pos hbegun, List.getElem?_map] at hget
      obtain ⟨attempt, hattempt, hdelay⟩ := Option.map_eq_some_iff.mp hget
      obtain ⟨_, hsame⟩ := List.getElem?_eq_some_iff.mp hattempt
      rw [getElem_range] at hsame
      rw [← hdelay, ← hsame]
    · rw [if_neg hbegun] at hget
      cases hget

omit [DecidableEq ι] in
theorem repeated_attempts (hrepeats : Repeats env stepDef) :
    ∃ attempt made value, attempts env stepDef = List.range made ∧ attempt + 1 < made ∧
      env.invokeCompensation stepDef attempt = .ok value := by
  obtain ⟨attempt, hcount, hfailed, ⟨value, hok⟩, hnotified⟩ := hrepeats
  obtain ⟨made, _, hmade, _, hsettled⟩ := attempts_eq_range env stepDef
  refine ⟨attempt, made, value, hmade, ?_, hok⟩
  by_contra hle
  obtain ⟨other, hother, hnone⟩ := hsettled (by omega)
  rcases Nat.lt_or_ge other attempt with hlt | hge
  · have hsome := hfailed other hlt
    rw [hnone] at hsome
    cases hsome
  · have hsame : other = attempt := by omega
    rw [hsame] at hnone
    rw [← isSome_attemptFailure_of_ok hok, hnone] at hnotified
    cases hnotified

theorem retry_feasible (env : Environment ι V E)
    (saga : SagaDefinition ι) (completed : List ι) (layers : List (List ι)) :
    ∀ query ∈ Coroutine.queries env.compensationRules.answer
      (compensate env saga .retryWithBackoff completed layers),
      env.compensationRules.Feasible query := by
  intro query hmem codes hcodes
  have hplain := Coroutine.Always.mem_queries (retry_plain env saga completed layers)
    env.compensationAnswer query hmem
  rw [hplain] at hcodes
  cases hcodes

theorem exists_whole_run (env : Environment ι V E) (saga : SagaDefinition ι)
    (completed : List ι) (layers : List (List ι)) :
    ∃ schedule, .cancelCaller ∉ schedule ∧
      (compensation env saga .retryWithBackoff completed layers schedule).state.main =
        .done ((Async.forEach completed.reverse
          (retryRound env saga)).outcome env.compensationAnswer) ∧
      (compensation env saga .retryWithBackoff completed layers schedule).trace =
        script env.compensationAnswer (retryQueries env saga completed) := by
  have hcode := compensate_retryWithBackoff env saga completed layers
  obtain ⟨schedule, hschedule, hdone⟩ :=
    exists_schedule_done (retry_feasible env saga completed layers)
  have hsolo := solo_execute (retry_plain env saga completed layers) hschedule
  obtain ⟨htrace, _⟩ := hsolo.trace_eq hdone
  rw [hcode] at hdone htrace
  refine ⟨schedule, hschedule, ?_, ?_⟩
  · unfold compensation
    rw [hcode]
    exact hdone
  · unfold compensation
    rw [hcode]
    exact htrace

theorem not_stops_of_repeats (hnodup : completed.Nodup)
    (hstep : saga.compensable? step = some stepDef)
    (hreached : ReachedByRetry env saga completed step)
    (hrepeats : Repeats env stepDef) :
    ¬ RetryDiscipline stepDef (script env.compensationAnswer
      (retryQueries env saga completed)) := by
  intro hdiscipline
  have hfilter := filter_retryQueries env hnodup hstep
  rw [if_pos (mem_begunSteps.mpr hreached)] at hfilter
  obtain ⟨attempt, made, value, hmade, hlt, hok⟩ :=
    repeated_attempts hrepeats
  have hpair : List.Sublist [.invoke stepDef attempt, .invoke stepDef (attempt + 1)]
      (retryQueries env saga completed) := by
    have hrange : List.Sublist [attempt, attempt + 1] (List.range made) := by
      have hsplit : made = attempt + 2 + (made - (attempt + 2)) := by omega
      rw [hsplit, range_add, range_succ, range_succ, append_assoc, append_assoc]
      exact (sublist_append_left [attempt, attempt + 1] _).trans (sublist_append_right _ _)
    have hmap := hrange.map (CompensationQuery.invoke stepDef : ℕ → CompensationQuery ι E)
    rw [← hmade, ← hfilter] at hmap
    exact hmap.trans filter_sublist
  obtain ⟨first, second, hsplit, hfirst, hsecond⟩ :=
    cons_sublist_iff.mp hpair
  obtain ⟨before, between, hbefore⟩ := append_of_mem hfirst
  have hanswer : env.compensationAnswer (.invoke stepDef attempt) = .ok (some value) := by
    rw [answer_invoke, hok]
  have hscript : script env.compensationAnswer (retryQueries env saga completed) =
      (script env.compensationAnswer before ++ [.issued (.invoke stepDef attempt)]) ++
      .answered (.invoke stepDef attempt) (.ok (some value)) ::
        script env.compensationAnswer (between ++ second) := by
    rw [hsplit, hbefore, append_assoc, cons_append, script_append, script_cons, hanswer]
    simp
  have hinvokes : ∀ k, (CompensationQuery.invoke stepDef k :
      CompensationQuery ι E).invokes stepDef.id = true := by
    intro k
    exact decide_eq_true rfl
  have hlater : .issued (.invoke stepDef (attempt + 1)) ∈
      script env.compensationAnswer (between ++ second) := by
    apply issued_mem_script.mpr
    exact mem_append_right between (singleton_sublist.mp hsecond)
  have hfalse := hdiscipline.stops _ _ _ _ hscript (hinvokes attempt) _ hlater
  rw [hinvokes] at hfalse
  cases hfalse

end Retrying

section Main

variable [DecidableEq ι] {env : Environment ι V E} {saga : SagaDefinition ι}

variable {completed : List ι} {layers : List (List ι)}

theorem settles_of_returned {schedule : List CrewPick} (hschedule : .cancelCaller ∉ schedule)
    (hdone : (compensation env saga .retryWithBackoff completed layers
      schedule).state.main = .done (.ok ())) :
    ∀ step ∈ completed, ∀ stepDef,
      saga.compensable? step = some stepDef → Settles env stepDef := by
  have hsolo := solo_execute (retry_plain env saga completed layers) hschedule
  have hresult := (hsolo.trace_eq hdone).2
  rw [compensate_retryWithBackoff] at hresult
  intro step hmem
  exact outcome_retryRound_eq_ok.mp
    ((Async.outcome_forEach_eq_ok _).mp hresult.symm step (mem_reverse.mpr hmem))

theorem dutiful_of_sound {policy : CompensationPolicy}
    (hpolicy : policy = .strictSequential ∨ policy = .retryWithBackoff ∨
      policy = .groupedParallel) (hnodup : completed.Nodup)
    (hcover : ∀ step ∈ completed, ∃ layer ∈ layers, step ∈ layer)
    (hsound : policy = .retryWithBackoff → RetrySound env saga completed)
    {schedule : List CrewPick} (hschedule : .cancelCaller ∉ schedule) :
    Dutiful saga policy completed (compensation env saga policy completed layers schedule) := by
  constructor
  · intro hdone
    by_cases hretry : policy = .retryWithBackoff
    · rcases (hsound hretry).counted with hcount | hfails
      · exact recovered_of_returned hpolicy hcover (fun _ => hcount) hdone
      · obtain ⟨step, hmem, stepDef, hstep, hnot⟩ := hfails
        rw [hretry] at hdone
        exact absurd (settles_of_returned hschedule hdone step hmem stepDef hstep) hnot
    · exact recovered_of_returned hpolicy hcover
        (fun heq => absurd heq hretry) hdone
  · intro hretry step _ stepDef hstep
    rw [hretry]
    have hsolo := solo_execute (retry_plain env saga completed layers) hschedule
    have hpart : (compensation env saga .retryWithBackoff completed layers
        schedule).trace <+: script env.compensationAnswer
          (retryQueries env saga completed) := by
      have hsoloPrefix := hsolo.trace_prefix
      unfold compensation
      rw [compensate_retryWithBackoff] at hsoloPrefix ⊢
      exact hsoloPrefix
    exact retryDiscipline_of_prefix hnodup hstep
      (fun hreached => (hsound hretry).once step stepDef hreached hstep)
      hpart

theorem sound_of_dutiful (hnodup : completed.Nodup)
    (hdutiful : ∀ schedule, .cancelCaller ∉ schedule → Dutiful saga .retryWithBackoff completed
        (compensation env saga .retryWithBackoff completed layers
          schedule)) : RetrySound env saga completed := by
  obtain ⟨schedule, hschedule, hdone, htrace⟩ :=
    exists_whole_run env saga completed layers
  have hrun := hdutiful schedule hschedule
  constructor
  · intro step stepDef hreached hstep hrepeats
    have hmem : step ∈ completed := by
      obtain ⟨earlier, later, hcompleted, _⟩ := hreached
      rw [hcompleted]
      exact mem_append_right earlier mem_cons_self
    have hdiscipline := hrun.retried rfl step hmem stepDef hstep
    rw [htrace] at hdiscipline
    exact not_stops_of_repeats hnodup hstep hreached hrepeats hdiscipline
  · by_contra hneither
    rw [not_or] at hneither
    obtain ⟨hcount, hsettle⟩ := hneither
    push Not at hcount hsettle
    obtain ⟨step, hmem, stepDef, hstep, hlt⟩ := hcount
    have hok : (Async.forEach completed.reverse
        (retryRound env saga)).outcome env.compensationAnswer = .ok () := by
      apply (Async.outcome_forEach_eq_ok _).mpr
      intro other hother
      apply outcome_retryRound_eq_ok.mpr
      exact hsettle other (mem_reverse.mp hother)
    rw [hok] at hdone
    have hcompensable : saga.Compensable step :=
      Option.isSome_iff_exists.mpr ⟨stepDef, hstep⟩
    obtain ⟨other, attempt, value, hanswered, hid⟩ :=
      hrun.returned hdone step hmem hcompensable
    rw [htrace] at hanswered
    have hquery := (answered_mem_script.mp hanswered).1
    have hinvokes : (CompensationQuery.invoke other attempt :
        CompensationQuery ι E).invokes step = true := by
      rw [← hid]
      exact decide_eq_true rfl
    have hfiltered := mem_filter.mpr ⟨hquery, hinvokes⟩
    rw [filter_retryQueries env hnodup hstep] at hfiltered
    obtain ⟨made, hle, hmade, _, _⟩ := attempts_eq_range env stepDef
    have hzero : made = 0 := by omega
    rw [hmade, hzero] at hfiltered
    split at hfiltered
    · cases hfiltered
    · cases hfiltered

/-- The compensator keeps its promises in every run exactly when the retrying
policy is not used or its counts are positive and no success is repeated. -/
theorem compensate_dutiful_iff (env : Environment ι V E)
    (saga : SagaDefinition ι) (policy : CompensationPolicy)
    (hpolicy : policy = .strictSequential ∨ policy = .retryWithBackoff ∨
      policy = .groupedParallel)
    (completed : List ι) (hnodup : completed.Nodup)
    (layers : List (List ι))
    (hcover : ∀ step ∈ completed, ∃ layer ∈ layers, step ∈ layer) :
    (∀ schedule, .cancelCaller ∉ schedule → Dutiful saga policy completed
          (compensation env saga policy completed layers schedule)) ↔
      (policy = .retryWithBackoff → RetrySound env saga completed) := by
  constructor
  · intro hdutiful hretry
    rw [hretry] at hdutiful
    exact sound_of_dutiful hnodup hdutiful
  · intro hsound schedule hschedule
    exact dutiful_of_sound hpolicy hnodup hcover hsound hschedule

end Main

def twinSaga : SagaDefinition ℕ :=
  .ofSteps "twin" [.reversible 0 [], .reversible 1 []]

theorem compensate_dutiful_iff_twin : Dutiful twinSaga .retryWithBackoff [0, 1]
      (compensation (Environment.obliging () () : Environment ℕ Unit Unit)
        twinSaga .retryWithBackoff [0, 1] [[0, 1]]
        [.main 0, .main 0]) := by
  have hiff := compensate_dutiful_iff
    (Environment.obliging () () : Environment ℕ Unit Unit) twinSaga
    .retryWithBackoff (Or.inr (Or.inl rfl)) [0, 1] (by decide) [[0, 1]]
    (fun step hmem => ⟨[0, 1], mem_singleton_self _, hmem⟩)
  refine hiff.mpr ?_ [.main 0, .main 0] (by simp)
  intro _
  constructor
  · intro step stepDef _ _ hrepeats
    obtain ⟨attempt, _, _, _, hnotified⟩ := hrepeats
    cases hnotified
  · left
    intro step hmem stepDef hstep
    have hcases : step = 0 ∨ step = 1 := by simpa using hmem
    rcases hcases with hzero | hone
    · rw [hzero] at hstep
      cases hstep
      decide
    · rw [hone] at hstep
      cases hstep
      decide

def unretriedSaga : SagaDefinition ℕ :=
  .ofSteps "unretried" [{ StepDefinition.reversible 0 [] with compensationRetry := some 0 }]

/-- With `compensation_retry=0` the compensator returns normally and has not
invoked the compensation at all. -/
theorem not_dutiful_of_zero_retries : ¬ Dutiful unretriedSaga .retryWithBackoff [0]
      (compensation (Environment.obliging () () : Environment ℕ Unit Unit)
        unretriedSaga .retryWithBackoff [0] [[0]] []) := by
  intro hdutiful
  obtain ⟨stepDef, attempt, value, hmem, _⟩ :=
    hdutiful.returned rfl 0 (by decide) rfl
  cases hmem

end PyFly.Saga
