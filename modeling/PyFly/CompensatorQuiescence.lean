import PyFly.CompensatorContract

/-!
# Nothing runs after the compensator

When `compensate` has returned or raised, its gathered tasks have ended, with
one exception: a grouped layer with several compensations of which one fails.
There `asyncio.gather` raises at once and leaves the siblings running.
-/

namespace PyFly.Saga

open Library Transactional Compensating List

variable {ι V E : Type}

section Quiescence

variable [DecidableEq ι]

/-- Once `compensate` has ended, nothing happens any more. -/
def Quiescent (env : Environment ι V E) (saga : SagaDefinition ι)
    (policy : CompensationPolicy) (completed : List ι)
    (layers : List (List ι)) (schedule : List CrewPick) : Prop :=
  (compensation env saga policy completed layers schedule).state.main.isDone = true →
    ∀ more, (compensation env saga policy completed layers (schedule ++ more)).trace =
      (compensation env saga policy completed layers schedule).trace

/-- In the first layer, counted from the last, in which a compensation fails
there is no other compensation. -/
def LoneFailure (env : Environment ι V E) (saga : SagaDefinition ι)
    (completed : List ι) (layers : List (List ι)) : Prop :=
  ∀ before layer after, layers.reverse = before ++ layer :: after →
    (∀ earlier ∈ before, ∀ stepDef ∈ layerSteps saga completed earlier,
      env.invokeOneFailure stepDef 0 false = none) →
    (∃ stepDef ∈ layerSteps saga completed layer,
      (env.invokeOneFailure stepDef 0 false).isSome) →
    (layerSteps saga completed layer).length ≤ 1

end Quiescence

section Gatherings

variable {env : Environment ι V E}

def groupedTask (env : Environment ι V E) (stepDef : StepDefinition ι) :
    Compensating ι V E Unit := do
  perform (.scheduled stepDef.id)
  invokeOne env stepDef 0 true false

theorem outcome_groupedTask (env : Environment ι V E) (stepDef : StepDefinition ι) :
    (groupedTask env stepDef).outcome env.compensationAnswer =
      raised (env.invokeOneFailure stepDef 0 false) := by
  have hinvoke := outcome_invokeOne env stepDef 0 false
  have hscheduled : (perform (.scheduled stepDef.id) :
      Compensating ι V E Unit).outcome env.compensationAnswer = .ok () := rfl
  unfold groupedTask
  rw [Async.outcome_bind_of_ok _ hscheduled, hinvoke]

variable {steps : List (StepDefinition ι)}

theorem foretold_grouped {results : List (Option (Except (Fault E) Unit))}
    (h : List.Forall₂ (Foretold env.compensationRules) (steps.map (groupedTask env)) results) :
    List.Forall₂ (fun stepDef result => ∀ value, result = some value →
      value = raised (env.invokeOneFailure stepDef 0 false))
      steps results := by
  have hsteps := forall₂_map_left_iff.mp h
  refine hsteps.imp ?_
  intro stepDef result hforetold value hvalue
  rw [hforetold value hvalue]
  exact outcome_groupedTask env stepDef

theorem agreeable_of_no_failure (hnone : ∀ stepDef ∈ steps,
      env.invokeOneFailure stepDef 0 false = none) :
    env.compensationRules.Agreeable (.gather steps false) := by
  intro codes choice results reply hcodes hforetold hcollect
  rw [show codes = steps.map (groupedTask env) from
    (Option.some.inj hcodes).symm] at hforetold
  have hresults := foretold_grouped hforetold
  have hfaults : results.filterMap Environment.taskFault = [] := by
    clear hcollect hforetold hcodes
    induction hresults with
    | nil => rfl
    | @cons stepDef result steps results hhead htail ih =>
      have hrest := ih fun other hmem =>
        hnone other (mem_cons_of_mem _ hmem)
      rw [filterMap_cons, hrest]
      cases result with
      | none => rfl
      | some value =>
        rw [hhead value rfl, hnone stepDef mem_cons_self]
        rfl
  have hanswer : env.compensationRules.answer (.gather steps false) = .ok none := by
    show Environment.raisedReply (steps.findSome? _) = _
    rw [List.findSome?_eq_none_iff.mpr hnone]
    rfl
  change Environment.gatherReply (.gather steps false) false choice results =
    some reply at hcollect
  unfold Environment.gatherReply at hcollect
  dsimp only at hcollect
  rw [hfaults, rotate_nil] at hcollect
  by_cases hall : results.all Option.isSome = true
  · dsimp only at hcollect
    rw [if_pos hall] at hcollect
    rw [hanswer]
    exact ⟨(Option.some.inj hcollect).symm, all_eq_true.mp hall⟩
  · dsimp only at hcollect
    rw [if_neg hall] at hcollect
    cases hcollect

theorem feasible_of_no_failure (hnone : ∀ stepDef ∈ steps,
      env.invokeOneFailure stepDef 0 false = none) :
    env.compensationRules.Feasible (.gather steps false) := by
  intro codes hcodes
  rw [show codes = steps.map (groupedTask env) from
    (Option.some.inj hcodes).symm]
  have hresults : (steps.map (groupedTask env)).map (fun code =>
      some (Coroutine.outcome env.compensationRules.answer code)) =
      steps.map fun _ => some (.ok ()) := by
    refine Eq.trans map_map ?_
    apply map_congr_left
    intro stepDef hmem
    have houtcome := outcome_groupedTask env stepDef
    rw [hnone stepDef hmem] at houtcome
    exact congrArg some houtcome
  have hanswer : env.compensationRules.answer (.gather steps false) = .ok none := by
    show Environment.raisedReply (steps.findSome? _) = _
    rw [List.findSome?_eq_none_iff.mpr hnone]
    rfl
  rw [hresults, hanswer]
  show Environment.gatherReply (.gather steps false) false 0 _ = _
  unfold Environment.gatherReply
  have hfaults : (steps.map fun _ =>
      some (.ok () : Except (Fault E) Unit)).filterMap Environment.taskFault = [] := by
    simp [filterMap_eq_nil_iff, Environment.taskFault]
  dsimp only
  rw [hfaults, rotate_nil]
  simp

theorem agreeable_of_lone (stepDef : StepDefinition ι) :
    env.compensationRules.Agreeable (.gather [stepDef] false) := by
  intro codes choice results reply hcodes hforetold hcollect
  rw [show codes = [stepDef].map (groupedTask env) from
    (Option.some.inj hcodes).symm] at hforetold
  have hresults := foretold_grouped hforetold
  cases hresults with
  | cons hhead htail =>
    cases htail with
    | nil =>
      rename_i result
      cases result with
      | none => cases hcollect
      | some value =>
        have hvalue := hhead value rfl
        rw [hvalue] at hcollect
        refine ⟨?_, by simp⟩
        show reply = Environment.raisedReply ([stepDef].findSome? _)
        rw [List.findSome?_singleton]
        change Environment.gatherReply (.gather [stepDef] false) false
          choice _ = some reply at hcollect
        unfold Environment.gatherReply at hcollect
        cases hfailure : env.invokeOneFailure stepDef 0 false with
        | none =>
          have hfaults : [some (raised (none : Option E))].filterMap
              Environment.taskFault = [] := rfl
          rw [hfailure, hfaults, rotate_nil] at hcollect
          exact (Option.some.inj hcollect).symm
        | some error =>
          have hfaults : [some (raised (some error))].filterMap
              Environment.taskFault = [.exception error] := rfl
          rw [hfailure, hfaults, rotate_singleton] at hcollect
          exact (Option.some.inj hcollect).symm

/-- With `return_exceptions` a gathering always waits for everybody. -/
theorem agreeable_bestEffort (steps : List (StepDefinition ι)) :
    env.compensationRules.Agreeable (.gather steps true) := by
  intro codes choice results reply hcodes hforetold hcollect
  change Environment.gatherReply (.gather steps true) false choice results =
    some reply at hcollect
  unfold Environment.gatherReply at hcollect
  by_cases hall : results.all Option.isSome = true
  · dsimp only at hcollect
    rw [if_pos hall] at hcollect
    exact ⟨(Option.some.inj hcollect).symm, all_eq_true.mp hall⟩
  · dsimp only at hcollect
    rw [if_neg hall] at hcollect
    cases hcollect

theorem agreeable_of_plain {query : CompensationQuery ι E}
    (hplain : env.gatheredTasks query = none) :
    env.compensationRules.Agreeable query := by
  intro codes choice results reply hcodes
  change env.gatheredTasks query = some codes at hcodes
  rw [hplain] at hcodes
  cases hcodes

end Gatherings

section Policies

variable [DecidableEq ι] {env : Environment ι V E} {saga : SagaDefinition ι}

def Single (query : CompensationQuery ι E) : Prop :=
  ∃ step, query.step? = some step

omit [DecidableEq ι] in
theorem single_invokeOne (stepDef : StepDefinition ι) (attempt : ℕ)
    (raiseOnError skipErrorHandler : Bool) :
    Async.Always Single (invokeOne env stepDef attempt raiseOnError skipErrorHandler) :=
  Coroutine.Always.imp (fun _ hstep => ⟨stepDef.id, hstep⟩)
    (invokeOne_always attempt raiseOnError skipErrorHandler)

theorem single_strictSequential (completed : List ι) :
    Async.Always Single (strictSequential env saga completed) := by
  apply Async.Always.forEach
  intro step _
  cases saga.compensable? step with
  | none => trivial
  | some stepDef => exact single_invokeOne stepDef 0 true false

theorem single_retryWithBackoff (completed : List ι) :
    Async.Always Single (retryWithBackoff env saga completed) := by
  apply Async.Always.forEach
  intro step _
  exact Coroutine.Always.imp (fun _ hstep => ⟨step, hstep⟩) (retryRound_always step)

theorem single_circuitBreakerLoop (failures : ℕ) (steps : List ι) :
    Async.Always Single (circuitBreakerLoop env saga failures steps) := by
  induction steps generalizing failures with
  | nil => trivial
  | cons step rest ih =>
    rw [circuitBreakerLoop]
    split
    · trivial
    · cases saga.compensable? step with
      | none => exact ih failures
      | some stepDef =>
        apply Async.Always.bind
        · apply Async.Always.catching
          · exact Async.Always.bind (single_invokeOne stepDef 0 true false) fun _ => trivial
          · intro fault
            cases fault with
            | cancelled => trivial
            | exception error => trivial
        · exact ih

def groupedRound (saga : SagaDefinition ι) (completed layer : List ι) :
    Compensating ι V E Unit :=
  if (layerSteps saga completed layer).isEmpty then pure ()
  else perform (.gather (layerSteps saga completed layer) false)

variable {completed layer : List ι}

theorem groupedRound_of_nonempty (hne : layerSteps saga completed layer ≠ []) :
    (groupedRound saga completed layer : Compensating ι V E Unit) =
      perform (.gather (layerSteps saga completed layer) false) := by
  unfold groupedRound
  rw [if_neg (by simpa using hne)]

theorem compensate_groupedParallel (hne : completed ≠ []) (layers : List (List ι)) :
    compensate env saga .groupedParallel completed layers =
      Async.forEach layers.reverse (groupedRound saga completed) := by
  cases completed with
  | nil => exact absurd rfl hne
  | cons first rest => rfl

theorem outcome_groupedRound_eq_ok :
    (groupedRound saga completed layer : Compensating ι V E Unit).outcome
        env.compensationAnswer = .ok () ↔
      ∀ stepDef ∈ layerSteps saga completed layer,
        env.invokeOneFailure stepDef 0 false = none := by
  cases hsteps : layerSteps saga completed layer with
  | nil =>
    unfold groupedRound
    rw [hsteps]
    simp
  | cons first rest =>
    have hne : layerSteps saga completed layer ≠ [] := by
      rw [hsteps]
      exact cons_ne_nil first rest
    rw [groupedRound_of_nonempty hne, outcome_perform, ← List.findSome?_eq_none_iff, hsteps]
    show (Environment.raisedReply ((first :: rest).findSome? _)).map _ = _ ↔ _
    cases (first :: rest).findSome? fun stepDef =>
        env.invokeOneFailure stepDef 0 false with
    | none => exact ⟨fun _ => rfl, fun _ => rfl⟩
    | some error =>
      constructor
      · intro h
        cases h
      · intro h
        cases h

theorem queries_groupedRound (answer : CompensationQuery ι E → CompensationReply V E)
    {query : CompensationQuery ι E}
    (hmem : query ∈ (groupedRound saga completed layer :
      Compensating ι V E Unit).queries answer) :
    query = .gather (layerSteps saga completed layer) false ∧
      layerSteps saga completed layer ≠ [] := by
  by_cases hsteps : layerSteps saga completed layer = []
  · unfold groupedRound at hmem
    rw [hsteps] at hmem
    cases hmem
  · rw [groupedRound_of_nonempty hsteps, queries_perform] at hmem
    exact ⟨mem_singleton.mp hmem, hsteps⟩

theorem agreeable_groupedParallel {layers : List (List ι)}
    (hlone : LoneFailure env saga completed layers) :
    ∀ query ∈ (Async.forEach layers.reverse (groupedRound saga completed) :
        Compensating ι V E Unit).queries env.compensationAnswer,
      env.compensationRules.Agreeable query := by
  intro query hmem
  rw [Async.queries_forEach] at hmem
  obtain ⟨layer, hbegun, hquery⟩ := mem_flatMap.mp hmem
  obtain ⟨before, after, hlayers, hok⟩ := Async.mem_begun_iff _ |>.mp hbegun
  obtain ⟨hgather, hne⟩ := queries_groupedRound _ hquery
  rw [hgather]
  have hearlier : ∀ earlier ∈ before, ∀ stepDef ∈ layerSteps saga completed earlier,
        env.invokeOneFailure stepDef 0 false = none :=
    fun earlier hearlierMem =>
      outcome_groupedRound_eq_ok.mp (hok earlier hearlierMem)
  by_cases hfails : ∃ stepDef ∈ layerSteps saga completed layer,
      (env.invokeOneFailure stepDef 0 false).isSome
  · have hlength := hlone before layer after hlayers hearlier hfails
    have hone : (layerSteps saga completed layer).length = 1 := by
      have hpos := length_pos_iff.mpr hne
      omega
    obtain ⟨stepDef, hsteps⟩ := length_eq_one_iff.mp hone
    rw [hsteps]
    exact agreeable_of_lone stepDef
  · apply agreeable_of_no_failure
    intro stepDef hstepDef
    cases hfailure : env.invokeOneFailure stepDef 0 false with
    | none => rfl
    | some error =>
      exact absurd ⟨stepDef, hstepDef, by rw [hfailure]; rfl⟩ hfails

theorem agreeable_compensate {policy : CompensationPolicy}
    {completed : List ι} {layers : List (List ι)}
    (hlone : policy = .groupedParallel → LoneFailure env saga completed layers) :
    ∀ query ∈ (compensate env saga policy completed layers).queries env.compensationAnswer,
      env.compensationRules.Agreeable query := by
  have hsingle : ∀ code : Compensating ι V E Unit, code.Always Single →
      ∀ query ∈ code.queries env.compensationAnswer, env.compensationRules.Agreeable query := by
    intro code halways query hmem
    obtain ⟨step, hstep⟩ := halways.mem_queries _ query hmem
    exact agreeable_of_plain (gatheredTasks_of_step hstep)
  by_cases hempty : completed = []
  · intro query hmem
    rw [hempty] at hmem
    cases hmem
  · have hnot : completed.isEmpty = false := by simpa using hempty
    cases policy with
    | groupedParallel =>
      rw [compensate_groupedParallel hempty]
      exact agreeable_groupedParallel (hlone rfl)
    | strictSequential =>
      unfold compensate
      rw [hnot]
      exact hsingle _ (single_strictSequential completed)
    | retryWithBackoff =>
      unfold compensate
      rw [hnot]
      exact hsingle _ (single_retryWithBackoff completed)
    | circuitBreaker =>
      unfold compensate
      rw [hnot]
      exact hsingle _ (single_circuitBreakerLoop 0 completed.reverse)
    | bestEffortParallel =>
      unfold compensate bestEffortParallel
      rw [hnot, if_neg Bool.false_ne_true]
      intro query hmem
      cases hsteps : completed.filterMap saga.compensable? with
      | nil =>
        rw [hsteps] at hmem
        cases hmem
      | cons first rest =>
        rw [hsteps] at hmem
        have hquery : query = .gather (first :: rest) true := by
          have hone : query ∈ (perform (.gather (first :: rest) true) :
              Compensating ι V E Unit).queries env.compensationAnswer := hmem
          rw [queries_perform] at hone
          exact mem_singleton.mp hone
        rw [hquery]
        exact agreeable_bestEffort (first :: rest)

end Policies

section Main

variable [DecidableEq ι] {env : Environment ι V E} {saga : SagaDefinition ι}

variable {completed : List ι} {layers : List (List ι)}

theorem quiescent_of_agreeable {policy : CompensationPolicy}
    (hlone : policy = .groupedParallel →
      LoneFailure env saga completed layers) {schedule : List CrewPick}
    (hschedule : .cancelCaller ∉ schedule) :
    Quiescent env saga policy completed layers schedule := by
  intro hdone more
  obtain ⟨hover, _⟩ := agreeable_execute (agreeable_compensate hlone)
    (fun _ => true) hschedule hdone
  unfold compensation
  unfold GatherRules.execute at hover ⊢
  rw [Machine.runFrom_append, hover.runFrom]

theorem gathering_of_layer {completed layer : List ι}
    (hne : layerSteps saga completed layer ≠ []) (after : List (List ι)) :
    ∃ resume, (Async.forEach (layer :: after) (groupedRound saga completed) :
        Compensating ι V E Unit) =
        Coroutine.await (.gather (layerSteps saga completed layer) false) resume ∧
      ∀ fault, resume (.error fault) = .done (.error fault) := by
  rw [Async.forEach, groupedRound_of_nonempty hne]
  exact ⟨_, rfl, fun _ => rfl⟩

omit [DecidableEq ι] in
theorem exists_orphan {crew : Crew (CompensationQuery ι E)
      (CompensationReply V E) (Except (Fault E) Unit)
      (Except (Fault E) Unit)}
    (trace : List (CompensationSignal ι V E))
    {steps : List (StepDefinition ι)}
    {resume : CompensationReply V E → Compensating ι V E Unit}
    (hmain : crew.main = .await (.gather steps false) resume)
    (hfresh : crew.Fresh env.compensationRules)
    (hfault : ∀ fault, resume (.error fault) = .done (.error fault))
    {failing other : ℕ} (hne : failing ≠ other)
    {failed waiting : StepDefinition ι}
    (hfailing : steps[failing]? = some failed)
    (hother : steps[other]? = some waiting)
    (hfails : (env.invokeOneFailure failed 0 false).isSome) :
    ∃ schedule index, .cancelCaller ∉ schedule ∧
      ((crewMachine env.compensationRules).runFrom ⟨crew, trace⟩
        schedule).state.main.isDone = true ∧
      ((crewMachine env.compensationRules).runFrom ⟨crew, trace⟩
          (schedule ++ [.orphan index])).trace ≠
        ((crewMachine env.compensationRules).runFrom ⟨crew, trace⟩ schedule).trace := by
  have hgathering : crew.gathering =
      steps.map fun stepDef => Child.start (groupedTask env stepDef) := by
    unfold Crew.Fresh at hfresh
    rw [hfresh, hmain]
    exact map_map
  have hat : ∀ (index : ℕ) stepDef, steps[index]? = some stepDef →
      crew.gathering[index]? = some (Child.start (groupedTask env stepDef)) := by
    intro index stepDef hstep
    rw [hgathering, List.getElem?_map, hstep]
    rfl
  obtain ⟨schedule, hschedule, hreached⟩ :=
    exists_schedule_child env.compensationRules trace (hat failing failed hfailing) rfl
  obtain ⟨error, herror⟩ := Option.isSome_iff_exists.mp hfails
  have hresult : ((Child.start (groupedTask env failed)).finish
      env.compensationRules).code.result? =
      some (.error (.exception error)) := by
    have houtcome := outcome_groupedTask env failed
    rw [herror] at houtcome
    exact congrArg some houtcome
  -- the failed task decides the gathering
  have hcollect : ∃ fault, env.compensationRules.collect
      (.gather steps false) crew.interrupted 0
      ((crew.gathering.set failing ((Child.start (groupedTask env failed)).finish
          env.compensationRules)).map fun child => child.code.result?) =
      some (.error fault) := by
    show ∃ fault, Environment.gatherReply (.gather steps false)
      crew.interrupted 0 _ = some (.error fault)
    unfold Environment.gatherReply
    dsimp only
    rw [rotate_zero]
    obtain ⟨hlt, _⟩ := List.getElem?_eq_some_iff.mp (hat _ _ hfailing)
    have hmem : Fault.exception error ∈ ((crew.gathering.set failing
          ((Child.start (groupedTask env failed)).finish
            env.compensationRules)).map fun child =>
              child.code.result?).filterMap Environment.taskFault := by
      apply mem_filterMap.mpr
      refine ⟨some (.error (.exception error)), ?_, rfl⟩
      rw [← hresult]
      exact mem_map_of_mem (mem_of_getElem? (List.getElem?_set_self hlt))
    cases hfaults : ((crew.gathering.set failing ((Child.start (groupedTask env failed)).finish
          env.compensationRules)).map fun child =>
            child.code.result?).filterMap Environment.taskFault with
    | nil =>
      rw [hfaults] at hmem
      cases hmem
    | cons fault rest => exact ⟨fault, rfl⟩
  obtain ⟨fault, hreply⟩ := hcollect
  have hstep : (crewMachine env.compensationRules).step
      ((crewMachine env.compensationRules).runFrom ⟨crew, trace⟩ schedule).state (.main 0) =
      some (env.compensationRules.resumeWith { crew with
          gathering := crew.gathering.set failing
            ((Child.start (groupedTask env failed)).finish
              env.compensationRules) }
        (.gather steps false) resume (.error fault)) := by
    rw [hreached]
    show env.compensationRules.resumeMain 0 _ = _
    unfold GatherRules.resumeMain
    dsimp only
    rw [hmain]
    show (env.compensationRules.collect _ _ _ _).map _ = _
    rw [hreply]
    rfl
  have hleft : (crewMachine env.compensationRules).runFrom ⟨crew, trace⟩
      (schedule ++ [.main 0]) =
      ⟨(env.compensationRules.resumeWith { crew with
          gathering := crew.gathering.set failing
            ((Child.start (groupedTask env failed)).finish
              env.compensationRules) }
        (.gather steps false) resume (.error fault)).1,
      ((crewMachine env.compensationRules).runFrom ⟨crew, trace⟩ schedule).trace ++
        (env.compensationRules.resumeWith { crew with
            gathering := crew.gathering.set failing
              ((Child.start (groupedTask env failed)).finish
                env.compensationRules) }
          (.gather steps false) resume (.error fault)).2⟩ := by
    rw [Machine.runFrom_append, Machine.runFrom_cons, Machine.advance_of_step hstep]
    rfl
  have horphan : (crew.orphans ++ crew.gathering.set failing
      ((Child.start (groupedTask env failed)).finish
        env.compensationRules))[crew.orphans.length + other]? =
      some (Child.start (groupedTask env waiting)) := by
    rw [List.getElem?_append_right (Nat.le_add_right _ _),
      Nat.add_sub_cancel_left, List.getElem?_set_ne hne]
    exact hat other waiting hother
  refine ⟨schedule ++ [.main 0], crew.orphans.length + other,
    notMem_append hschedule (by simp), ?_, ?_⟩
  · rw [hleft]
    show (resume (.error fault)).isDone = true
    rw [hfault]
    rfl
  · rw [Machine.runFrom_append, hleft]
    have hnext : ∃ next signal rest, (crewMachine env.compensationRules).step
        (env.compensationRules.resumeWith { crew with
            gathering := crew.gathering.set failing
              ((Child.start (groupedTask env failed)).finish
                env.compensationRules) }
          (.gather steps false) resume (.error fault)).1
        (.orphan (crew.orphans.length + other)) =
        some (next, signal :: rest) := by
      show ∃ next signal rest, (env.compensationRules.resumeAt
        (crew.orphans ++ crew.gathering.set failing
          ((Child.start (groupedTask env failed)).finish
            env.compensationRules)) _).map _ = some (next, signal :: rest)
      unfold GatherRules.resumeAt
      rw [horphan]
      exact ⟨_, _, _, rfl⟩
    obtain ⟨next, signal, rest, hnext⟩ := hnext
    rw [Machine.runFrom_cons, Machine.advance_of_step hnext]
    simp

theorem exists_straggler {before : List (List ι)} {layer : List ι} {after : List (List ι)}
    (hlayers : layers.reverse = before ++ layer :: after)
    (hearlier : ∀ earlier ∈ before, ∀ stepDef ∈ layerSteps saga completed earlier,
        env.invokeOneFailure stepDef 0 false = none)
    (hfails : ∃ stepDef ∈ layerSteps saga completed layer,
      (env.invokeOneFailure stepDef 0 false).isSome)
    (hsiblings : 2 ≤ (layerSteps saga completed layer).length) :
    ∃ schedule, .cancelCaller ∉ schedule ∧
      ¬ Quiescent env saga .groupedParallel completed layers schedule := by
  obtain ⟨failed, hfailed, hfailure⟩ := hfails
  have hcompleted : completed ≠ [] := by
    intro hnil
    obtain ⟨step, _, hstep, _⟩ := mem_layerSteps.mp hfailed
    rw [hnil] at hstep
    cases hstep
  have hcode : compensate env saga .groupedParallel completed layers =
      Async.forEach before (groupedRound saga completed) >>= fun _ =>
        Async.forEach (layer :: after) (groupedRound saga completed) := by
    rw [compensate_groupedParallel hcompleted, hlayers, Async.forEach_append]
  have hgood := calm_start env.compensationRules
    (compensate env saga .groupedParallel completed layers)
  have hok : (Async.forEach before (groupedRound saga completed) :
      Compensating ι V E Unit).outcome env.compensationAnswer = .ok () := by
    apply (Async.outcome_forEach_eq_ok _).mpr
    intro earlier hmem
    exact outcome_groupedRound_eq_ok.mpr (hearlier earlier hmem)
  have hfeasible : ∀ query ∈ (Async.forEach before
      (groupedRound saga completed) : Compensating ι V E Unit).queries
        env.compensationAnswer, env.compensationRules.Feasible query := by
    intro query hmem
    rw [Async.queries_forEach] at hmem
    obtain ⟨earlier, hbegun, hquery⟩ := mem_flatMap.mp hmem
    have hmemBefore := (Async.begun_prefix _ _).subset hbegun
    rw [(queries_groupedRound _ hquery).1]
    exact feasible_of_no_failure (hearlier earlier hmemBefore)
  obtain ⟨first, hfirst, hreached, hfresh⟩ :=
    exists_schedule_bind hgood.1 hgood.2 rfl hcode hfeasible
  obtain ⟨resume, hawait, hfault⟩ :=
    @gathering_of_layer _ V E _ saga completed layer (ne_nil_of_mem hfailed) after
  have hmain : ((crewMachine env.compensationRules).runFrom ⟨(env.compensationRules.start
        (compensate env saga .groupedParallel completed layers)).1,
      (env.compensationRules.start (compensate env saga .groupedParallel completed layers)).2⟩
      first).state.main =
      .await (.gather (layerSteps saga completed layer) false) resume := by
    rw [hreached, ← hawait]
    show Async.proceed _ (Async.outcome env.compensationAnswer _) = _
    rw [hok]
    rfl
  obtain ⟨failing, hfailing⟩ := mem_iff_getElem?.mp hfailed
  have hother : ∃ other waiting, failing ≠ other ∧
      (layerSteps saga completed layer)[other]? = some waiting := by
    by_cases hzero : failing = 0
    · exact ⟨1, _, by omega, List.getElem?_eq_getElem (by omega)⟩
    · exact ⟨0, _, hzero, List.getElem?_eq_getElem (by omega)⟩
  obtain ⟨other, waiting, hne, hwaiting⟩ := hother
  obtain ⟨second, index, hsecond, hdone, htrace⟩ :=
    exists_orphan ((crewMachine env.compensationRules).runFrom ⟨(env.compensationRules.start
        (compensate env saga .groupedParallel completed layers)).1,
      (env.compensationRules.start (compensate env saga .groupedParallel completed layers)).2⟩
      first).trace hmain hfresh hfault hne hfailing hwaiting hfailure
  refine ⟨first ++ second, notMem_append hfirst hsecond, ?_⟩
  intro hquiescent
  unfold Quiescent compensation GatherRules.execute at hquiescent
  rw [Machine.runFrom_append] at hquiescent
  have hsame := hquiescent hdone [.orphan index]
  rw [append_assoc, Machine.runFrom_append] at hsame
  exact htrace hsame

theorem quiescent_iff {policy : CompensationPolicy} : (∀ schedule, .cancelCaller ∉ schedule →
        Quiescent env saga policy completed layers schedule) ↔
      (policy = .groupedParallel → LoneFailure env saga completed layers) := by
  constructor
  · intro hquiescent hgrouped before layer after hlayers hearlier hfails
    by_contra hlength
    obtain ⟨schedule, hschedule, hnot⟩ :=
      exists_straggler hlayers hearlier hfails (by omega)
    rw [hgrouped] at hquiescent
    exact hnot (hquiescent schedule hschedule)
  · intro hlone schedule hschedule
    exact quiescent_of_agreeable hlone hschedule

end Main

end PyFly.Saga
