import PyFly.CompensatorQuiescence
import PyFly.EngineCompensation

/-!
# Compensation before completion

`on_completed` and `mark_completed` are called in the `finally` clause, after
the compensator has returned or raised.  Nothing of a compensation comes after
them as long as the compensator leaves nothing running.
-/

namespace PyFly.Saga

open Library Transactional Compensating List

variable {ι V E : Type}

/-- The calls of the `finally` clause. -/
def EngineEvent.isClosing : EngineEvent ι V E → Bool
  | .notified (.onCompleted _) => true
  | .marked _ => true
  | _ => false

/-- No compensation and no `on_compensated` comes after the calls of the
`finally` clause. -/
def Closed (trace : List (EngineEvent ι V E)) : Prop :=
  ∀ before event after, trace = before ++ event :: after →
    event.isClosing = true → compensationSignals after = []

/-- No call of the `finally` clause has been made. -/
def Unclosed (trace : List (EngineEvent ι V E)) : Prop :=
  ∀ event ∈ trace, event.isClosing = false

section Traces

variable {trace events : List (EngineEvent ι V E)}

theorem Unclosed.append (h : Unclosed trace) (hevents : Unclosed events) :
    Unclosed (trace ++ events) := by
  intro event hmem
  rcases mem_append.mp hmem with hold | hnew
  · exact h event hold
  · exact hevents event hnew

theorem unclosed_nil : Unclosed ([] : List (EngineEvent ι V E)) := by
  intro event hmem
  cases hmem

theorem unclosed_steps (steps : List (StepEvent ι V E)) :
    Unclosed (steps.map EngineEvent.step) := by
  intro event hmem
  obtain ⟨step, _, hsame⟩ := mem_map.mp hmem
  rw [← hsame]
  rfl

theorem unclosed_compensations (signals : List (CompensationSignal ι V E)) :
    Unclosed (signals.map EngineEvent.compensation) := by
  intro event hmem
  obtain ⟨signal, _, hsame⟩ := mem_map.mp hmem
  rw [← hsame]
  rfl

theorem closed_of_no_signals (h : compensationSignals trace = []) : Closed trace := by
  intro before event after hsplit _
  have hsublist : (compensationSignals after).Sublist (compensationSignals trace) := by
    apply List.Sublist.filterMap
    rw [hsplit]
    exact (sublist_cons_self event after).trans (sublist_append_right before _)
  rw [h] at hsublist
  exact sublist_nil.mp hsublist

theorem Unclosed.closed (h : Unclosed trace) : Closed trace := by
  intro before event after hsplit hclosing
  have hmem : event ∈ trace := by
    rw [hsplit]
    exact mem_append_right before mem_cons_self
  rw [h event hmem] at hclosing
  cases hclosing

theorem Closed.append (h : Closed trace) (hevents : Closed events)
    (happart : Unclosed trace ∨ compensationSignals events = []) :
    Closed (trace ++ events) := by
  intro before event after hsplit hclosing
  rcases append_eq_append_iff.mp hsplit with
    ⟨middle, hbefore, htail⟩ | ⟨middle, htrace, hafter⟩
  · exact hevents middle event after htail hclosing
  · cases middle with
    | nil =>
      exact hevents [] event after hafter.symm hclosing
    | cons first rest =>
      obtain ⟨hfirst, hrest⟩ := List.cons.inj hafter
      rw [← hfirst] at htrace
      rcases happart with hunclosed | hsignals
      · have hmem : event ∈ trace := by
          rw [htrace]
          exact mem_append_right before mem_cons_self
        rw [hunclosed event hmem] at hclosing
        cases hclosing
      · have hafterSplit : after = rest ++ events := hrest
        rw [hafterSplit, compensationSignals_append, hsignals,
          h before event rest htrace hclosing]
        rfl

end Traces

/-! ## Phases -/

/-- The `finally` clause has not been entered. -/
def EnginePhase.Early : EnginePhase ι V E → Prop
  | .starting | .persisting | .executing | .compensating _ => True
  | _ => False

section Moves

variable [LinearOrder ι] {saga : SagaDefinition ι} {env : Environment ι V E}
variable {policy : CompensationPolicy}

theorem EnginePhase.Past.not_early {verdict : Verdict E}
    {ctx : SagaContext ι V E} {phase : EnginePhase ι V E}
    (h : phase.Past saga env verdict ctx) : ¬ phase.Early := by
  cases h with
  | _ => exact fun hearly => hearly

/-- A move which keeps the calls of the `finally` clause behind the
compensations, and makes none before entering it. -/
structure Tidy (moved : Engine ι V E × List (EngineEvent ι V E)) : Prop where
  closed : Closed moved.2
  early : moved.1.phase.Early → Unclosed moved.2

theorem tidy_enterCompleting (verdict : Verdict E) (engine : Engine ι V E) :
    Tidy (Engine.enterCompleting saga env verdict engine) := by
  obtain ⟨hported, hpast⟩ :=
    @Engine.enterCompleting_spec _ _ _ _ saga env verdict engine
  exact ⟨closed_of_no_signals hported.parts.signals,
    fun hearly => absurd hearly hpast.not_early⟩

omit [LinearOrder ι] in
theorem tidy_stay (engine : Engine ι V E) : Tidy (engine, []) :=
  ⟨unclosed_nil.closed, fun _ => unclosed_nil⟩

variable {engine : Engine ι V E}

omit [LinearOrder ι] in
theorem Tidy.after {first events : List (EngineEvent ι V E)}
    (hfirst : Unclosed first) (h : Tidy (engine, events)) :
    Tidy (engine, first ++ events) where
  closed := hfirst.closed.append h.closed (Or.inl hfirst)
  early := fun hearly => hfirst.append (h.early hearly)

theorem tidy_settleCompensation (error : E) (engine : Engine ι V E) :
    Tidy (Engine.settleCompensation saga env error engine) := by
  unfold Engine.settleCompensation
  split
  · exact tidy_stay engine
  · exact tidy_enterCompleting _ _

theorem tidy_enterCompensating (error : E) (engine : Engine ι V E) :
    Tidy (Engine.enterCompensating saga env policy error engine) := by
  unfold Engine.enterCompensating
  dsimp only
  rw [← cons_append]
  refine Tidy.after ?_ (tidy_settleCompensation _ _)
  intro event hmem
  rcases mem_cons.mp hmem with hhead | hrest
  · rw [hhead]
    rfl
  · exact unclosed_compensations _ event hrest

theorem tidy_settleExecution (engine : Engine ι V E) :
    Tidy (Engine.settleExecution saga env policy engine) := by
  unfold Engine.settleExecution
  split
  · exact tidy_stay engine
  · exact tidy_stay engine
  · exact tidy_enterCompleting _ _
  · exact tidy_enterCompensating _ _
  · exact tidy_enterCompleting _ _

theorem tidy_enterPersisting (engine : Engine ι V E) :
    Tidy (Engine.enterPersisting saga env policy engine) := by
  unfold Engine.enterPersisting
  split
  · exact tidy_settleExecution _
  · refine ⟨closed_of_no_signals rfl, fun _ => ?_⟩
    intro event hmem
    rw [mem_singleton.mp hmem]
    rfl

omit [LinearOrder ι] in
theorem tidy_afterCall {next : Engine ι V E × List (EngineEvent ι V E)}
    (hnext : Tidy next) (reply : CancelReply Unit E) :
    Tidy (Engine.afterCall engine next reply) := by
  cases reply with
  | returns value => exact hnext
  | raises error => exact tidy_stay _
  | propagates => exact tidy_stay _

theorem tidy_start (ctx : SagaContext ι V E) : Tidy (Engine.start saga env policy ctx) := by
  unfold Engine.start
  split
  · exact tidy_enterPersisting _
  · refine ⟨closed_of_no_signals rfl, fun _ => ?_⟩
    intro event hmem
    rw [mem_singleton.mp hmem]
    rfl

theorem tidy_resumeMain (hearly : engine.phase.Early) {cancelled : Bool}
    {choice : ℕ} {moved : Engine ι V E × List (EngineEvent ι V E)}
    (h : engine.resumeMain saga env policy cancelled choice = some moved) :
    Tidy moved := by
  unfold Engine.resumeMain at h
  cases hphase : engine.phase with
  | starting =>
    rw [hphase] at h
    obtain ⟨port, _, hnext⟩ := Option.map_eq_some_iff.mp h
    rw [← hnext]
    exact tidy_afterCall (tidy_enterPersisting engine) _
  | persisting =>
    rw [hphase] at h
    obtain ⟨port, _, hnext⟩ := Option.map_eq_some_iff.mp h
    rw [← hnext]
    exact tidy_afterCall (tidy_settleExecution _) _
  | executing =>
    rw [hphase] at h
    obtain ⟨orchestration, _, hnext⟩ := Option.map_eq_some_iff.mp h
    rw [← hnext]
    exact tidy_settleExecution _
  | compensating error =>
    rw [hphase] at h
    obtain ⟨crew, _, hnext⟩ := Option.map_eq_some_iff.mp h
    rw [← hnext]
    exact Tidy.after (unclosed_compensations _) (tidy_settleCompensation _ _)
  | completing verdict =>
    rw [hphase] at hearly
    exact absurd hearly fun h => h
  | marking verdict =>
    rw [hphase] at hearly
    exact absurd hearly fun h => h
  | finished outcome =>
    rw [hphase] at hearly
    exact absurd hearly fun h => h

end Moves

section Runs

variable [LinearOrder ι] {saga : SagaDefinition ι} {env : Environment ι V E}
variable {request : SagaRequest}

def LeavesNothing (saga : SagaDefinition ι) (env : Environment ι V E)
    (policy : CompensationPolicy) (trace : List (EngineEvent ι V E)) :
    Prop :=
  policy = .groupedParallel → ∀ completed, .compensationEntered completed ∈ trace →
      ∀ layers, computeLayers saga.deps = .ok layers → LoneFailure env saga completed layers

omit [LinearOrder ι] in
theorem over_idleCrew : (idleCrew : CompensationCrew ι V E).Over (.ok ()) :=
  ⟨rfl, rfl, by simp [idleCrew]⟩

/-- Once the `finally` clause has been entered, or `execute` has been left, no
compensation can go on. -/
theorem over_of_not_early {engine : Engine ι V E} {trace : List (EngineEvent ι V E)}
    (hstage : engine.Stage saga env request True trace)
    (hnothing : LeavesNothing saga env request.policy trace)
    (hearly : ¬ engine.phase.Early) :
    ∃ result, engine.crew.Over result := by
  cases hstage with
  | unstarted hphase horchestration hcrew hparts =>
    rw [hcrew]
    exact ⟨_, over_idleCrew⟩
  | executing schedule hcalm hrun hphase hmain hcrew hsignals hentries =>
    rw [hcrew]
    exact ⟨_, over_idleCrew⟩
  | concluded schedule hcalm hrun verdict hverdict hpast hcrew hsignals hentries =>
      rw [hcrew]
      exact ⟨_, over_idleCrew⟩
  | compensating schedule crewSchedule hcalm hrun error hraised hcrewRun hentries hend =>
      have hdone : engine.crew.main.isDone = true := by
        rcases hend with ⟨hphase, _⟩ | ⟨result, hresult, _⟩
        · rw [hphase] at hearly
          exact absurd trivial hearly
        · rw [hresult]
          rfl
      have hlone : request.policy = .groupedParallel →
          LoneFailure env saga engine.orchestration.ctx.doneSteps
            engine.orchestration.ctx.topologyLayers := by
        intro hgrouped
        cases hlayers : computeLayers saga.deps with
        | error failure =>
          have hstart := @orchestrate_of_error _ V E _ saga env _ hlayers request schedule
          rw [hrun] at hstart
          have hstate : engine.orchestration = Orchestration.start saga env
              (request.context saga) := congrArg Execution.state hstart
          have htopology : engine.orchestration.ctx.topologyLayers = [] := by
            rw [hstate]
            unfold Orchestration.start
            rw [hlayers]
            rfl
          rw [htopology]
          intro before layer after hsplit
          exact absurd hsplit (by simp)
        | ok layers =>
          have hinv := @orchestrate_invariant _ V E _ saga env _ hlayers request schedule
          rw [hrun] at hinv
          rw [hinv.topology]
          apply hnothing hgrouped _ ?_ layers hlayers
          apply mem_compensationEntries.mp
          rw [hentries]
          exact mem_cons_self
      have hmain := congrArg (fun run => run.state.main.isDone) hcrewRun
      have hover := (agreeable_execute (agreeable_compensate hlone)
        (fun _ => true) (hcalm trivial).2 (hmain.trans hdone)).1
      rw [show (env.compensationRules.execute _ crewSchedule).state =
        engine.crew from congrArg Execution.state hcrewRun] at hover
      exact ⟨_, hover⟩

theorem closed_step {engine next : Engine ι V E} {trace events : List (EngineEvent ι V E)}
    (hstage : engine.Stage saga env request True trace)
    (hnothing : LeavesNothing saga env request.policy trace)
    (hclosed : Closed trace)
    (hunclosed : engine.phase.Early → Unclosed trace)
    {pick : EnginePick ι}
    (h : engine.step saga env request.policy pick = some (next, events)) :
    Closed (trace ++ events) ∧ (next.phase.Early → Unclosed (trace ++ events)) := by
  have hmain : ∀ cancelled choice,
      engine.resumeMain saga env request.policy cancelled choice = some (next, events) →
      Closed (trace ++ events) ∧ (next.phase.Early → Unclosed (trace ++ events)) := by
    intro cancelled choice hresume
    by_cases hearly : engine.phase.Early
    · have htidy := tidy_resumeMain hearly hresume
      exact ⟨hclosed.append htidy.closed (Or.inl (hunclosed hearly)),
        fun hnext => (hunclosed hearly).append (htidy.early hnext)⟩
    · have hpast : ∃ verdict, engine.phase.Past saga env verdict engine.orchestration.ctx := by
        cases hphase : engine.phase with
        | completing verdict => exact ⟨verdict, .completing⟩
        | marking verdict => exact ⟨verdict, .marking⟩
        | finished outcome =>
          unfold Engine.resumeMain at hresume
          rw [hphase] at hresume
          cases hresume
        | _ =>
          rw [hphase] at hearly
          exact absurd trivial hearly
      obtain ⟨verdict, hverdict⟩ := hpast
      obtain ⟨hported, hnext⟩ := Engine.resumePast hverdict hresume
      exact ⟨hclosed.append (closed_of_no_signals hported.parts.signals)
          (Or.inr hported.parts.signals),
        fun hearlyNext => absurd hearlyNext hnext.not_early⟩
  have hsteps : ∀ orchestratorPick,
      engine.moveSteps saga env orchestratorPick = some (next, events) →
      Closed (trace ++ events) ∧ (next.phase.Early → Unclosed (trace ++ events)) := by
    intro orchestratorPick hmove
    obtain ⟨moved, _, heq⟩ := Option.map_eq_some_iff.mp hmove
    obtain ⟨hnext, hevents⟩ := Prod.mk.inj heq
    rw [← hnext, ← hevents]
    exact ⟨hclosed.append (unclosed_steps _).closed (Or.inr (compensationSignals_map_step _)),
      fun hearly => (hunclosed hearly).append (unclosed_steps _)⟩
  have hcrew : ∀ crewPick, engine.moveCompensations env crewPick = some (next, events) →
      Closed (trace ++ events) ∧ (next.phase.Early → Unclosed (trace ++ events)) := by
    intro crewPick hmove
    obtain ⟨moved, hmoved, heq⟩ := Option.map_eq_some_iff.mp hmove
    obtain ⟨hnext, hevents⟩ := Prod.mk.inj heq
    by_cases hearly : engine.phase.Early
    · rw [← hnext, ← hevents]
      exact ⟨hclosed.append (unclosed_compensations _).closed (Or.inl (hunclosed hearly)),
        fun _ => (hunclosed hearly).append (unclosed_compensations _)⟩
    · obtain ⟨result, hover⟩ := over_of_not_early hstage hnothing hearly
      rw [hover.step] at hmoved
      cases hmoved
  cases pick with
  | main choice => exact hmain false choice h
  | cancelCaller => exact hmain true 0 h
  | task step => exact hsteps (.task step) h
  | thread index => exact hsteps (.thread index) h
  | child index => exact hcrew (.child index) h
  | orphan index => exact hcrew (.orphan index) h

theorem LeavesNothing.mono {policy : CompensationPolicy}
    {trace events : List (EngineEvent ι V E)}
    (h : LeavesNothing saga env policy (trace ++ events)) :
    LeavesNothing saga env policy trace :=
  fun hgrouped completed hmem =>
    h hgrouped completed (mem_append_left events hmem)

/-- In a run whose compensator leaves nothing running, every compensation
precedes the calls of the `finally` clause. -/
theorem executeSaga_closed {schedule : List (EnginePick ι)} (hcaller : .cancelCaller ∉ schedule)
    (hnothing : LeavesNothing saga env request.policy
      (executeSaga saga env request schedule).trace) :
    Closed (executeSaga saga env request schedule).trace := by
  suffices hgood : (executeSaga saga env request schedule).state.Stage saga
      env request True (executeSaga saga env request schedule).trace ∧
      (LeavesNothing saga env request.policy (executeSaga saga env request schedule).trace →
        Closed (executeSaga saga env request schedule).trace ∧
          ((executeSaga saga env request schedule).state.phase.Early →
            Unclosed (executeSaga saga env request schedule).trace)) from
    (hgood.2 hnothing).1
  refine Machine.runFrom_invariant_of_allowed
    (fun engine trace => Engine.Stage saga env request True engine trace ∧
      (LeavesNothing saga env request.policy trace →
        Closed trace ∧ (EnginePhase.Early engine.phase → Unclosed trace)))
    (fun pick => pick ≠ .cancelCaller) ?_ ?_ ?_
  · intro engine trace pick next events hgood hpick hstep
    refine ⟨hgood.1.step (fun _ => hpick) hstep, ?_⟩
    intro hnext
    obtain ⟨hclosed, hunclosed⟩ := hgood.2 hnext.mono
    exact closed_step hgood.1 hnext.mono hclosed hunclosed hstep
  · refine ⟨Engine.stage_start saga env request True, ?_⟩
    intro _
    have htidy := @tidy_start _ V E _ saga env request.policy (request.context saga)
    exact ⟨htidy.closed, htidy.early⟩
  · intro pick hmem heq
    exact hcaller (heq ▸ hmem)

end Runs

/-- Two steps of one layer, and a third one which depends on both. -/
def forkSaga : SagaDefinition ℕ :=
  .ofSteps "fork" [.reversible 0 [], .reversible 1 [], .reversible 2 [0, 1]]

def forkEnvironment : Environment ℕ Unit Unit :=
  { Environment.failing 2 () () with
    compensation := fun step _ => if step = 0 then .error () else .ok ()
    persistence := some ⟨none, .propagates, fun _ => none, fun _ => .propagates⟩ }

end PyFly.Saga
