import PyFly.Library.DescendingGather
import PyFly.CompensationTally
import PyFly.EngineStages

/-!
# The order of compensations

All policies but best effort go down the topology layers: the sequential ones
because the statuses of a layer are written before those of the next, the
parallel one because it gathers layer by layer.  So a step is compensated only
after every step which depends on it has been dealt with.
-/

namespace PyFly.Saga

open Library Transactional Compensating List

variable {ι V E : Type}

def CompensationReply.isFault : CompensationReply V E → Bool
  | .ok _ => false
  | .error _ => true

section Programs

variable [LinearOrder ι] {env : Environment ι V E} {saga : SagaDefinition ι}
variable {layers : List (List ι)}

def compensationRank (layers : List (List ι)) : CompensationQuery ι E → Option ℕ
  | .gather steps _ =>
    steps.head?.map fun stepDef => layerIndex layers stepDef.id
  | query => query.step?.map (layerIndex layers)

theorem rank_of_step {query : CompensationQuery ι E} {step : ι}
    (hstep : query.step? = some step) :
    compensationRank layers query = some (layerIndex layers step) := by
  cases query with
  | gather steps returnExceptions => cases hstep
  | _ =>
    unfold compensationRank
    simp [hstep]

theorem level_of_single {step : ι} {α : Type} {code : Compensating ι V E α}
    (halways : Async.Always (fun query => query.step? = some step) code) :
    Async.Always (fun query =>
      (compensationRank layers query).getD (layerIndex layers step) =
        layerIndex layers step) code := by
  refine Coroutine.Always.imp ?_ halways
  intro query hstep
  rw [rank_of_step hstep]
  rfl

omit [LinearOrder ι] in
theorem patient (env : Environment ι V E) :
    env.compensationRules.Patient CompensationReply.isFault where
  collect := by
    intro query interrupted choice results reply h
    have hended : ∀ {outcome : CompensationReply V E},
        (if results.all Option.isSome then some outcome else none) =
          some reply → ∀ result ∈ results, result.isSome = true := by
      intro outcome hcollect
      by_cases hall : results.all Option.isSome = true
      · exact all_eq_true.mp hall
      · rw [if_neg hall] at hcollect
        cases hcollect
    change Environment.gatherReply query interrupted choice results = some reply at h
    unfold Environment.gatherReply at h
    cases query with
    | gather steps returnExceptions =>
      cases returnExceptions with
      | true => exact Or.inr (hended h)
      | false =>
        dsimp only at h
        cases hfaults : (results.filterMap Environment.taskFault).rotate choice with
        | nil =>
          rw [hfaults] at h
          exact Or.inr (hended h)
        | cons fault rest =>
          rw [hfaults] at h
          left
          rw [← Option.some.inj h]
          rfl
    | _ => cases h
  interrupt := by
    intro query codes hcodes
    cases query with
    | gather steps returnExceptions => rfl
    | _ => cases hcodes

theorem layered_of_single {α : Type} {code : Compensating ι V E α}
    (hsingle : Async.Always Single code) :
    Coroutine.Layered env.compensationRules (compensationRank layers)
      CompensationReply.isFault code := by
  induction code with
  | done result => trivial
  | await query resume ih =>
    obtain ⟨hquery, hrest⟩ := hsingle
    refine ⟨?_, fun reply => ih reply (hrest reply)⟩
    obtain ⟨step, hstep⟩ := hquery
    intro codes hcodes
    have hplain : env.compensationRules.children query = none :=
      gatheredTasks_of_step hstep
    rw [hplain] at hcodes
    cases hcodes

section Sequential

variable {steps : List ι}
variable (hsorted : steps.Pairwise fun first second =>
  layerIndex layers second ≤ layerIndex layers first)

include hsorted

theorem descends_forEach {body : ι → Compensating ι V E Unit} (halways : ∀ step,
      Async.Always (fun query => query.step? = some step) (body step)) :
    (Async.forEach steps body).Descends (compensationRank layers) layers.length := by
  apply Async.Descends.forEach (fun step _ => findIdx_le_length) hsorted
  intro step _
  exact level_of_single (halways step)

theorem descends_circuitBreakerLoop (failures : ℕ) {bound : ℕ}
    (hbound : ∀ step ∈ steps, layerIndex layers step ≤ bound) :
    (circuitBreakerLoop env saga failures steps).Descends (compensationRank layers) bound := by
  induction steps generalizing failures bound with
  | nil => trivial
  | cons step rest ih =>
    obtain ⟨hhead, hrest⟩ := pairwise_cons.mp hsorted
    rw [circuitBreakerLoop]
    split
    · trivial
    · cases hstep : saga.compensable? step with
      | none =>
        exact ih hrest failures fun other hmem =>
          hbound other (mem_cons_of_mem _ hmem)
      | some stepDef =>
        apply Async.Descends.bind (hbound step mem_cons_self)
        · apply level_of_single
          have hinvoke :=
            @invokeOne_always _ V _ env stepDef 0 true false
          rw [SagaDefinition.id_of_compensable? hstep] at hinvoke
          apply Async.Always.catching
          · exact Async.Always.bind hinvoke fun _ => trivial
          · intro fault
            cases fault with
            | cancelled => trivial
            | exception error => trivial
        · exact fun failed => ih hrest failed hhead

end Sequential

section Grouped

def levelOfLayer (layers : List (List ι)) (layer : List ι) : ℕ :=
  (layer.head?.map (layerIndex layers)).getD 0

theorem levelOfLayer_getElem (hnodup : layers.flatten.Nodup)
    (hnonempty : ∀ layer ∈ layers, layer ≠ []) {index : ℕ}
    (hlt : index < layers.length) :
    levelOfLayer layers layers[index] = index := by
  unfold levelOfLayer
  have hne := hnonempty layers[index] (getElem_mem hlt)
  obtain ⟨step, hhead⟩ := Option.ne_none_iff_exists'.mp
    (fun hnone => hne (List.head?_eq_none_iff.mp hnone))
  rw [hhead]
  exact layerIndex_eq_of_mem hnodup hlt (mem_of_mem_head? hhead)

theorem layerIndex_of_mem (hnodup : layers.flatten.Nodup)
    (hnonempty : ∀ layer ∈ layers, layer ≠ []) {layer : List ι}
    (hlayer : layer ∈ layers) {step : ι} (hmem : step ∈ layer) :
    layerIndex layers step = levelOfLayer layers layer := by
  obtain ⟨index, hlt, hindex⟩ := mem_iff_getElem.mp hlayer
  rw [← hindex, levelOfLayer_getElem hnodup hnonempty hlt]
  exact layerIndex_eq_of_mem hnodup hlt (hindex ▸ hmem)

theorem levels_descend (hnodup : layers.flatten.Nodup)
    (hnonempty : ∀ layer ∈ layers, layer ≠ []) :
    layers.reverse.Pairwise fun first second =>
      levelOfLayer layers second ≤ levelOfLayer layers first := by
  rw [pairwise_reverse, pairwise_iff_getElem]
  intro i j hi hj hlt
  rw [levelOfLayer_getElem hnodup hnonempty hi, levelOfLayer_getElem hnodup hnonempty hj]
  exact Nat.le_of_lt hlt

variable {completed : List ι}

theorem rank_gather (hnodup : layers.flatten.Nodup)
    (hnonempty : ∀ layer ∈ layers, layer ≠ []) {layer : List ι}
    (hlayer : layer ∈ layers)
    (hne : layerSteps saga completed layer ≠ []) :
    compensationRank layers (.gather (layerSteps saga completed layer) false :
          CompensationQuery ι E) = some (levelOfLayer layers layer) := by
  cases hsteps : layerSteps saga completed layer with
  | nil => exact absurd hsteps hne
  | cons stepDef rest =>
    have hmem : stepDef ∈ layerSteps saga completed layer := by
      rw [hsteps]
      exact mem_cons_self
    obtain ⟨step, hstep, _, hcompensable⟩ := mem_layerSteps.mp hmem
    have hlevel := layerIndex_of_mem hnodup hnonempty hlayer hstep
    rw [← SagaDefinition.id_of_compensable? hcompensable] at hlevel
    exact congrArg some hlevel

theorem descends_groupedParallel (hnodup : layers.flatten.Nodup)
    (hnonempty : ∀ layer ∈ layers, layer ≠ []) :
    (Async.forEach layers.reverse (groupedRound saga completed) :
      Compensating ι V E Unit).Descends (compensationRank layers) layers.length := by
  apply Async.Descends.forEach _ (levels_descend hnodup hnonempty)
  · intro layer hmem
    have hlayer := mem_reverse.mp hmem
    by_cases hne : layerSteps saga completed layer = []
    · unfold groupedRound
      rw [hne]
      trivial
    · rw [groupedRound_of_nonempty hne]
      apply perform_always
      rw [rank_gather hnodup hnonempty hlayer hne]
      rfl
  · intro layer hmem
    obtain ⟨index, hlt, hindex⟩ :=
      mem_iff_getElem.mp (mem_reverse.mp hmem)
    rw [← hindex, levelOfLayer_getElem hnodup hnonempty hlt]
    exact Nat.le_of_lt hlt

theorem layered_groupedParallel (hnodup : layers.flatten.Nodup)
    (hnonempty : ∀ layer ∈ layers, layer ≠ []) {rounds : List (List ι)}
    (hrounds : ∀ layer ∈ rounds, layer ∈ layers) :
    Coroutine.Layered env.compensationRules (compensationRank layers) CompensationReply.isFault
      (Async.forEach rounds (groupedRound saga completed) : Compensating ι V E Unit) := by
  induction rounds with
  | nil => trivial
  | cons layer rest ih =>
    have hrest := ih fun other hmem =>
      hrounds other (mem_cons_of_mem _ hmem)
    have hlayer := hrounds layer mem_cons_self
    by_cases hne : layerSteps saga completed layer = []
    · have hround : (groupedRound saga completed layer :
          Compensating ι V E Unit) = pure () := by
        unfold groupedRound
        rw [hne]
        rfl
      rw [Async.forEach, hround]
      exact hrest
    · rw [Async.forEach, groupedRound_of_nonempty hne]
      refine ⟨?_, fun reply => ?_⟩
      · intro codes hcodes
        refine ⟨⟨_, rank_gather hnodup hnonempty hlayer hne, ?_⟩, ?_⟩
        · intro code hcode
          have htasks : codes = (layerSteps saga completed layer).map
              (gatheredTask env false) := by
            have hgathered := @gatheredTasks_gather _ V _ env
              (layerSteps saga completed layer) false
            exact Option.some.inj (hcodes.symm.trans hgathered)
          rw [htasks] at hcode
          obtain ⟨stepDef, hmem, hsame⟩ := mem_map.mp hcode
          obtain ⟨step, hstep, _, hcompensable⟩ := mem_layerSteps.mp hmem
          rw [← hsame, ← layerIndex_of_mem hnodup hnonempty hlayer hstep]
          apply level_of_single
          rw [← SagaDefinition.id_of_compensable? hcompensable]
          exact Async.Always.bind (perform_always rfl) fun _ =>
            invokeOne_always 0 true false
        · intro reply hfault
          cases reply with
          | ok value => cases hfault
          | error fault => rfl
      · cases reply with
        | ok value => exact hrest
        | error fault => trivial

end Grouped

/-! ## Runs -/

structure Arranged (layers : List (List ι)) (completed : List ι) : Prop where
  nodup : layers.flatten.Nodup
  nonempty : ∀ layer ∈ layers, layer ≠ []
  sorted : completed.Pairwise fun first second =>
    layerIndex layers first ≤ layerIndex layers second

theorem compensation_ordered {policy : CompensationPolicy}
    (hpolicy : policy ≠ .bestEffortParallel) {completed : List ι}
    (harranged : Arranged layers completed) (schedule : List CrewPick) :
    Ordered (compensationRank layers)
      (compensation env saga policy completed layers schedule).trace := by
  have hsorted : completed.reverse.Pairwise fun first second =>
      layerIndex layers second ≤ layerIndex layers first := by
    rw [pairwise_reverse]
    exact harranged.sorted
  have hbound : ∀ step ∈ completed.reverse, layerIndex layers step ≤ layers.length :=
    fun step _ => findIdx_le_length
  have hcode : Coroutine.Descends (compensationRank layers) layers.length
        (compensate env saga policy completed layers) ∧
      Coroutine.Layered env.compensationRules (compensationRank layers)
        CompensationReply.isFault
        (compensate env saga policy completed layers) := by
    cases hcompleted : completed with
    | nil => exact ⟨trivial, trivial⟩
    | cons first rest =>
      rw [← hcompleted]
      cases policy with
      | strictSequential =>
        have hsingle : Async.Always Single (compensate env saga
            .strictSequential completed layers) := by
          rw [hcompleted]
          exact single_strictSequential (first :: rest)
        refine ⟨?_, layered_of_single hsingle⟩
        rw [compensate_strictSequential]
        exact descends_forEach hsorted strictRound_always
      | groupedParallel =>
        rw [compensate_groupedParallel (by simp [hcompleted])]
        exact ⟨descends_groupedParallel harranged.nodup harranged.nonempty,
          layered_groupedParallel harranged.nodup harranged.nonempty
            fun layer hmem => mem_reverse.mp hmem⟩
      | retryWithBackoff =>
        have hsingle : Async.Always Single (compensate env saga
            .retryWithBackoff completed layers) := by
          rw [hcompleted]
          exact single_retryWithBackoff (first :: rest)
        refine ⟨?_, layered_of_single hsingle⟩
        rw [compensate_retryWithBackoff]
        exact descends_forEach hsorted retryRound_always
      | circuitBreaker =>
        have hloop : compensate env saga .circuitBreaker completed
            layers = circuitBreakerLoop env saga 0 completed.reverse := by
          rw [hcompleted]
          rfl
        rw [hloop]
        exact ⟨descends_circuitBreakerLoop hsorted 0 hbound,
          layered_of_single (single_circuitBreakerLoop 0 _)⟩
      | bestEffortParallel => exact absurd rfl hpolicy
  exact descending_execute (patient env) hcode.1 hcode.2 schedule

/-- Every invocation for one step has finished before one for another step
starts. -/
def FinishesBefore (first second : ι) (trace : List (CompensationSignal ι V E)) : Prop :=
  ∀ before query after, trace = before ++ .issued query :: after → query.invokes second = true →
    before.countP (Signal.issues (CompensationQuery.invokes first)) =
        before.countP (Signal.answers (CompensationQuery.invokes first)) ∧
      ∀ signal ∈ after, signal.query.invokes first = false

theorem finishesBefore_of_ordered {first second : ι} {trace : List (CompensationSignal ι V E)}
    (hordered : Ordered (compensationRank layers) trace)
    (hlt : layerIndex layers second < layerIndex layers first) :
    FinishesBefore first second trace := by
  intro before query after htrace hinvokes
  refine hordered before query after _ htrace (rank_of_step (step_of_invokes hinvokes)) _ ?_
  intro other hother
  exact ⟨_, rank_of_step (step_of_invokes hother), hlt⟩

theorem finishesBefore_nil (first second : ι) :
    FinishesBefore first second ([] : List (CompensationSignal ι V E)) := by
  intro before query after htrace
  exact absurd htrace (by simp)

theorem compensation_of_nil (env : Environment ι V E)
    (saga : SagaDefinition ι) (policy : CompensationPolicy)
    (layers : List (List ι)) (schedule : List CrewPick) :
    (compensation env saga policy [] layers schedule).trace = [] := by
  have hover : (env.compensationRules.start
      (compensate env saga policy [] layers)).1.Over (.ok ()) :=
    ⟨rfl, rfl, fun child hmem => by cases hmem⟩
  unfold compensation GatherRules.execute
  rw [Crew.Over.runFrom hover]
  rfl

theorem arranged_of_invariant {config : Orchestration ι V E} {trace : List (StepEvent ι V E)}
    (hinv : Orchestration.Invariant saga env layers config trace)
    (hlayers : computeLayers saga.deps = .ok layers) :
    Arranged layers config.ctx.doneSteps where
  nodup := Orchestration.flatten_nodup hlayers
  nonempty := (computeLayers_layering hlayers).1.nonempty
  sorted := hinv.keys.sublist config.ctx.doneSteps_sublist

/-- A step is compensated after all the steps which depend on it. -/
theorem execute_orders_compensations (saga : SagaDefinition ι)
    (env : Environment ι V E) (request : SagaRequest)
    (hpolicy : request.policy ≠ .bestEffortParallel)
    (schedule : List (EnginePick ι)) (dependency step : ι)
    (hdepends : Relation.TransGen saga.DependsOn dependency step) :
    FinishesBefore step dependency (compensationSignals
      (executeSaga saga env request schedule).trace) := by
  have hstage := executeSaga_stage saga env request
    (show False → .cancelCaller ∉ schedule from fun h => h.elim)
  cases hstage with
  | unstarted hphase horchestration hcrew hparts =>
    rw [hparts.signals]
    exact finishesBefore_nil step dependency
  | executing steps hcalm hrun hphase hmain hcrew hsignals hentries =>
    rw [hsignals]
    exact finishesBefore_nil step dependency
  | concluded steps hcalm hrun verdict hverdict hpast hcrew hsignals hentries =>
      rw [hsignals]
      exact finishesBefore_nil step dependency
  | compensating steps crewSchedule hcalm hrun error hraised hcrewRun hentries hend =>
      have htrace := congrArg Execution.trace hcrewRun
      rw [← show _ = compensationSignals
        (executeSaga saga env request schedule).trace from htrace]
      cases hlayers : computeLayers saga.deps with
      | error failure =>
        have hstate := @orchestrate_of_error _ V E _ saga env _ hlayers request steps
        rw [hrun] at hstate
        have hdone : (executeSaga saga env request
            schedule).state.orchestration.ctx.doneSteps = [] := by
          rw [show (executeSaga saga env request schedule).state.orchestration = _ from
              congrArg Execution.state hstate]
          unfold Orchestration.start
          rw [hlayers]
          rfl
        rw [hdone, compensation_of_nil]
        exact finishesBefore_nil step dependency
      | ok layers =>
        have hinv := @orchestrate_invariant _ V E _ saga env _ hlayers request steps
        rw [hrun] at hinv
        rw [hinv.topology]
        exact finishesBefore_of_ordered (compensation_ordered hpolicy
            (arranged_of_invariant hinv hlayers) crewSchedule)
          (layerIndex_lt_of_depends hlayers hdepends)

def tripleSaga : SagaDefinition ℕ :=
  .ofSteps "triple" [.reversible 0 [], .reversible 1 [0], .reversible 2 [1]]

/-- The last of three steps raises, and the second is compensated before the
first. -/
theorem execute_orders_compensations_triple :
    FinishesBefore 1 0 (compensationSignals (executeSaga tripleSaga
        (Environment.failing 2 () () : Environment ℕ Unit Unit)
        ⟨"1", Dict.empty, .strictSequential⟩
        [.task 0, .task 0, .main 0, .task 1, .task 1, .main 0, .task 2,
          .task 2, .main 0, .main 0, .main 0]).trace) :=
  execute_orders_compensations tripleSaga _ _ (by simp) _ 0 1
    (.single ⟨.reversible 1 [0], rfl, mem_singleton_self 0⟩)

end Programs

end PyFly.Saga
