import PyFly.EngineClosing

/-!
# What `mark_completed` may say

`mark_completed` is called with `False` after a failure.  The compensator has
then been called with every step whose action has returned, and no task is
left, as long as the caller is not cancelled while the orchestrator is awaited
and no returned action is taken for a failed one.
-/

namespace PyFly.Saga

open Library Transactional List

variable {ι V E : Type}

section Tasks

variable {env : Environment ι V E} {stepDef : StepDefinition ι}
variable {summary : StepSummary} {task next : StepTask E}
variable {available : Bool} {effects : List (StepEffect ι V E)}

/-- `on_step_success` is about to raise in the task of a step. -/
def StepTask.Obstructed (env : Environment ι V E) (step : ι) (task : StepTask E) : Prop :=
  ∃ attempt port error, task.phase = .emittingSuccess attempt ∧ env.events = some port ∧
    portReply port (.onStepSuccess step attempt (env.latencyMs step attempt))
        task.cancelRequested = .raises error

theorem StepTask.ended_of_clear {attempt : ℕ} (hphase : task.phase = .emittingSuccess attempt)
    (hclear : ¬ task.Obstructed env stepDef.id)
    (h : task.resume env stepDef available = some (next, effects)) :
    next.phase.isEnded = true ∧ (effects = [.completed, .left] ∨ effects = [.left]) := by
  unfold StepTask.resume at h
  simp only [hphase] at h
  cases hport : env.events with
  | none =>
    rw [hport] at h
    cases h
  | some port =>
    rw [hport] at h
    dsimp only at h
    cases hreply : portReply port (.onStepSuccess stepDef.id attempt
        (env.latencyMs stepDef.id attempt)) task.cancelRequested with
    | returns value =>
      rw [hreply] at h
      cases h
      exact ⟨rfl, Or.inl rfl⟩
    | raises error =>
      exact absurd ⟨attempt, port, error, hphase, hport, hreply⟩ hclear
    | propagates =>
      rw [hreply] at h
      cases h
      exact ⟨rfl, Or.inr rfl⟩

/-- What a move of a task whose `on_step_success` does not raise makes of the
status `DONE`. -/
structure StepTask.Honest (summary : StepSummary) (next : StepTask E)
    (effects : List (StepEffect ι V E)) : Prop where
  stays : summary.status? = some .done → (summary.noteAll effects).status? = some .done
  returned : (∃ attempt value, .actionReturned attempt value ∈ effects) →
    (summary.noteAll effects).status? = some .done
  retried : ∀ attempt, next.phase = .backingOff attempt →
    (summary.noteAll effects).status? ≠ some .done

theorem StepTask.Fails.not_returned {attempt : ℕ} {cause : List (StepEffect ι V E)}
    (hfails : task.Fails env stepDef attempt cause) (other : ℕ) (value : V) :
    .actionReturned other value ∉ cause := by
  intro hmem
  cases hfails with
  | raised error hphase => simp at hmem
  | interrupted hphase =>
    rcases StepTask.interrupted_eq_or (V := V) (E := E) stepDef attempt with heq | heq
    · simp [heq] at hmem
    · simp [heq] at hmem
  | obstructed hphase hport => cases hmem

theorem StepTask.honest_resume (hrecord : TaskRecord env stepDef summary task.phase)
    (hretried : ∀ attempt, task.phase = .backingOff attempt → summary.status? ≠ some .done)
    (hclear : ¬ task.Obstructed env stepDef.id)
    (h : task.resume env stepDef available = some (next, effects)) :
    StepTask.Honest summary next effects := by
  by_cases hemitting : ∃ attempt, task.phase = .emittingSuccess attempt
  · obtain ⟨attempt, hphase⟩ := hemitting
    obtain ⟨hended, heffects⟩ := StepTask.ended_of_clear hphase hclear h
    have hsame : summary.noteAll effects = summary := by
      rcases heffects with heffects | heffects
      · rw [heffects]
        rfl
      · rw [heffects]
        rfl
    rw [hphase] at hrecord
    refine ⟨?_, ?_, ?_⟩
    · rw [hsame]
      exact id
    · intro _
      rw [hsame]
      exact hrecord.2.1
    · intro other hnext
      rw [hnext] at hended
      cases hended
  · have hrunning : ∀ {attempt cause}, task.Fails env stepDef attempt cause →
        summary.noteAll cause = summary ∧ summary.status? = some .running := by
      intro attempt cause hfails
      have hnote := (hrecord.of_fails hfails).2.2
      rcases hfails.phase with hphase | hphase
      · rw [hphase] at hrecord
        exact ⟨hnote, hrecord.2⟩
      · exact absurd ⟨attempt, hphase⟩ hemitting
    cases StepTask.transition_of_resume h with
    | cancelledEarly hphase hcancel =>
      refine ⟨id, ?_, ?_⟩
      · simp
      · intro attempt hnext
        cases hnext
    | entered hphase hcancel hpermit =>
      rw [hphase] at hrecord
      have hinitial : summary = .initial := hrecord
      refine ⟨?_, ?_, ?_⟩
      · rw [hinitial]
        intro hdone
        cases hdone
      · simp
      · intro attempt hnext
        cases hnext
    | returnedSilently attempt value hphase =>
      refine ⟨fun _ => rfl, fun _ => rfl, ?_⟩
      intro other hnext
      cases hnext
    | returned attempt value hphase hevents =>
      refine ⟨fun _ => rfl, fun _ => rfl, ?_⟩
      intro other hnext
      cases hnext
    | passed attempt hphase => exact absurd ⟨attempt, hphase⟩ hemitting
    | backedOff attempt cause hfails hretry =>
      obtain ⟨hnote, hstatus⟩ := hrunning hfails
      have hsame : (summary.noteAll (cause ++ [.sleeping
          (env.backoffDelayMs stepDef attempt task.backoffMs)])).status? = some .running := by
        rw [StepSummary.noteAll_append, hnote]
        exact hstatus
      refine ⟨?_, ?_, ?_⟩
      · rw [hstatus]
        intro hdone
        cases hdone
      · simp [hfails.not_returned]
      · intro other _
        simp [hsame]
    | gaveUp attempt error cause hfails hlast =>
      refine ⟨?_, ?_, ?_⟩
      · rw [(hrunning hfails).2]
        intro hdone
        cases hdone
      · simp [hfails.not_returned]
      · intro other hnext
        cases hnext
    | gaveUpLoudly attempt error cause hfails hlast hevents =>
      refine ⟨?_, ?_, ?_⟩
      · rw [(hrunning hfails).2]
        intro hdone
        cases hdone
      · simp [hfails.not_returned]
      · intro other hnext
        cases hnext
    | retried attempt hphase hcancel =>
      refine ⟨?_, ?_, ?_⟩
      · intro hdone
        exact absurd hdone (hretried attempt hphase)
      · simp
      · intro other hnext
        cases hnext
    | reported attempt error failure hphase =>
      refine ⟨id, ?_, ?_⟩
      · simp
      · intro other hnext
        cases hnext
    | cancelled causes hphase hcancel hcauses =>
      have hneutral : summary.noteAll (causes ++ [.left]) = summary := by
        rcases hcauses with hnil | ⟨attempt, hinterrupted⟩
        · rw [hnil]
          rfl
        · rw [hinterrupted]
          exact StepSummary.interrupted_neutral stepDef attempt _
      refine ⟨?_, ?_, ?_⟩
      · rw [hneutral]
        exact id
      · rcases hcauses with hnil | ⟨attempt, hinterrupted⟩
        · simp [hnil]
        · rcases StepTask.interrupted_eq_or (V := V) (E := E) stepDef attempt with heq | heq
          · simp [hinterrupted, heq]
          · simp [hinterrupted, heq]
      · intro other hnext
        cases hnext

end Tasks

/-! ## Moves of the engine -/

/-- `mark_completed` has not been called. -/
def EnginePhase.Unmarked : EnginePhase ι V E → Prop
  | .marking _ | .finished _ => False
  | _ => True

section Moves

variable [LinearOrder ι] {saga : SagaDefinition ι} {env : Environment ι V E}
variable {policy : CompensationPolicy}
variable {engine next : Engine ι V E} {events : List (EngineEvent ι V E)}

/-- A stretch of `execute` in which no step takes part, and which ends when
`mark_completed` is called. -/
structure Engine.Settles (engine next : Engine ι V E)
    (events : List (EngineEvent ι V E)) : Prop where
  orchestration : next.orchestration = engine.orchestration
  steps : stepEvents events = []
  marks : ∀ before success after, events = before ++ .marked success :: after →
      after = [] ∧ ∃ verdict, next.phase = .marking verdict ∧ verdict.success = success

omit [LinearOrder ι] in
theorem Engine.settles_of_unmarked (horchestration : next.orchestration = engine.orchestration)
    (hsteps : stepEvents events = [])
    (hunmarked : ∀ success, .marked success ∉ events) :
    engine.Settles next events := by
  refine ⟨horchestration, hsteps, ?_⟩
  intro before success after hsplit
  have hmem : .marked success ∈ events := by
    rw [hsplit]
    exact mem_append_right before mem_cons_self
  exact absurd hmem (hunmarked success)

omit [LinearOrder ι] in
theorem Engine.settles_silently (horchestration : next.orchestration = engine.orchestration) :
    engine.Settles next [] :=
  Engine.settles_of_unmarked horchestration rfl (by simp)

omit [LinearOrder ι] in
theorem Engine.Settles.after {first : List (EngineEvent ι V E)}
    (hunclosed : Unclosed first) (hsteps : stepEvents first = [])
    (h : engine.Settles next events) :
    engine.Settles next (first ++ events) := by
  refine ⟨h.orchestration, ?_, ?_⟩
  · rw [stepEvents_append, hsteps, h.steps]
    rfl
  · intro before success after hsplit
    rcases append_eq_append_iff.mp hsplit with
      ⟨middle, _, htail⟩ | ⟨middle, hfirst, htail⟩
    · exact h.marks middle success after htail
    · cases middle with
      | nil => exact h.marks [] success after htail.symm
      | cons head rest =>
        obtain ⟨hhead, _⟩ := List.cons.inj htail
        have hmem : .marked success ∈ first := by
          rw [hfirst, ← hhead]
          exact mem_append_right before mem_cons_self
        cases hunclosed _ hmem

theorem Engine.settles_enterMarking (verdict : Verdict E) :
    engine.Settles (Engine.enterMarking saga env verdict engine).1
      (Engine.enterMarking saga env verdict engine).2 := by
  unfold Engine.enterMarking
  cases env.persistence with
  | none => exact Engine.settles_silently rfl
  | some port =>
    refine ⟨rfl, rfl, ?_⟩
    intro before success after hsplit
    cases before with
    | nil =>
      obtain ⟨hmarked, hafter⟩ := List.cons.inj hsplit
      exact ⟨hafter.symm, verdict, rfl, EngineEvent.marked.inj hmarked⟩
    | cons head rest =>
      obtain ⟨_, hrest⟩ := List.cons.inj hsplit
      exact absurd hrest (by simp)

theorem Engine.settles_enterCompleting (verdict : Verdict E) :
    engine.Settles (Engine.enterCompleting saga env verdict engine).1
      (Engine.enterCompleting saga env verdict engine).2 := by
  unfold Engine.enterCompleting
  cases env.events with
  | none => exact Engine.settles_enterMarking verdict
  | some port =>
    exact Engine.settles_of_unmarked rfl rfl (by simp)

theorem Engine.settles_settleCompensation (error : E) :
    engine.Settles (Engine.settleCompensation saga env error engine).1
      (Engine.settleCompensation saga env error engine).2 := by
  unfold Engine.settleCompensation
  split
  · exact Engine.settles_silently rfl
  · exact Engine.settles_enterCompleting _

theorem Engine.settles_enterCompensating (error : E) :
    engine.Settles (Engine.enterCompensating saga env policy error engine).1
      (Engine.enterCompensating saga env policy error engine).2 := by
  unfold Engine.enterCompensating
  dsimp only
  rw [← cons_append]
  have hsettles := @Engine.settles_settleCompensation _ V E _ saga env { engine with
      phase := .compensating error
      crew := (env.compensationRules.start
        (Compensating.compensate env saga policy
          engine.orchestration.ctx.doneSteps
          engine.orchestration.ctx.topologyLayers)).1 } error
  refine Engine.Settles.after ?_ ?_ ⟨hsettles.orchestration, hsettles.steps, hsettles.marks⟩
  · intro event hmem
    rcases mem_cons.mp hmem with hhead | hrest
    · rw [hhead]
      rfl
    · exact unclosed_compensations _ event hrest
  · exact stepEvents_map_compensation _

theorem Engine.settles_settleExecution :
    engine.Settles (Engine.settleExecution saga env policy engine).1
      (Engine.settleExecution saga env policy engine).2 := by
  unfold Engine.settleExecution
  split
  · exact Engine.settles_silently rfl
  · exact Engine.settles_silently rfl
  · exact Engine.settles_enterCompleting _
  · exact Engine.settles_enterCompensating _
  · exact Engine.settles_enterCompleting _

/-- What a move of `execute` itself does to the orchestrator. -/
inductive Engine.Drives (saga : SagaDefinition ι) (env : Environment ι V E)
    (cancelled : Bool) (choice : ℕ) (engine next : Engine ι V E) : Prop
  | aside (hsame : next.orchestration = engine.orchestration)
  | starts (hphase : engine.phase = .starting ∨ engine.phase = .persisting)
      (hstart : next.orchestration = Orchestration.start saga env engine.orchestration.ctx)
  | resumes (hphase : engine.phase = .executing)
      (hmoved : (if cancelled then engine.orchestration.cancelCaller
          else engine.orchestration.resumeMain saga choice) =
        some next.orchestration)

theorem Engine.settles_afterCall {cancelled : Bool} {choice : ℕ} {middle : Engine ι V E}
    {following : Engine ι V E × List (EngineEvent ι V E)}
    (hsettles : middle.Settles following.1 following.2)
    (hdrives : Engine.Drives saga env cancelled choice engine following.1)
    {reply : CancelReply Unit E}
    (hnext : Engine.afterCall engine following reply = (next, events)) :
    (∃ other : Engine ι V E, other.Settles next events) ∧
      Engine.Drives saga env cancelled choice engine next := by
  cases reply with
  | returns value =>
    have hsame : following = (next, events) := hnext
    rw [hsame] at hsettles hdrives
    exact ⟨⟨middle, hsettles⟩, hdrives⟩
  | raises error =>
    cases hnext
    exact ⟨⟨engine, Engine.settles_silently rfl⟩, .aside rfl⟩
  | propagates =>
    cases hnext
    exact ⟨⟨engine, Engine.settles_silently rfl⟩, .aside rfl⟩

theorem Engine.resumeMain_settles {cancelled : Bool} {choice : ℕ}
    (h : engine.resumeMain saga env policy cancelled choice = some (next, events)) :
    ((∃ middle : Engine ι V E, middle.Settles next events) ∧
      Engine.Drives saga env cancelled choice engine next) ∧
      (engine.phase.Unmarked ∨ events = [] ∧ ¬ next.phase.Unmarked) := by
  have hexecuting := @Engine.settles_settleExecution _ V E _ saga env policy { engine with
      phase := .executing
      orchestration := Orchestration.start saga env engine.orchestration.ctx }
  unfold Engine.resumeMain at h
  cases hphase : engine.phase with
  | starting =>
    rw [hphase] at h
    obtain ⟨port, _, hnext⟩ := Option.map_eq_some_iff.mp h
    refine ⟨?_, Or.inl trivial⟩
    have hpersisting : ∃ middle : Engine ι V E, middle.Settles
            (Engine.enterPersisting saga env policy engine).1
            (Engine.enterPersisting saga env policy engine).2 ∧
          Engine.Drives saga env cancelled choice engine
            (Engine.enterPersisting saga env policy engine).1 := by
      unfold Engine.enterPersisting
      cases env.persistence with
      | none =>
        exact ⟨_, hexecuting, .starts (Or.inl hphase) hexecuting.orchestration⟩
      | some store =>
        exact ⟨engine, Engine.settles_of_unmarked rfl rfl (by simp),
          .aside rfl⟩
    obtain ⟨middle, hsettles, hdrives⟩ := hpersisting
    exact Engine.settles_afterCall hsettles hdrives hnext
  | persisting =>
    rw [hphase] at h
    obtain ⟨port, _, hnext⟩ := Option.map_eq_some_iff.mp h
    exact ⟨Engine.settles_afterCall hexecuting
        (.starts (Or.inr hphase) hexecuting.orchestration) hnext,
      Or.inl trivial⟩
  | executing =>
    rw [hphase] at h
    obtain ⟨orchestration, hmoved, hnext⟩ := Option.map_eq_some_iff.mp h
    have hsettles := @Engine.settles_settleExecution _ V E _ saga env policy { engine with
        phase := .executing
        orchestration := orchestration }
    rw [show Engine.settleExecution saga env policy _ = (next, events) from hnext] at hsettles
    refine ⟨⟨⟨_, hsettles⟩, .resumes hphase ?_⟩, Or.inl trivial⟩
    rw [show next.orchestration = orchestration from
      hsettles.orchestration]
    exact hmoved
  | compensating error =>
    rw [hphase] at h
    obtain ⟨crew, _, hnext⟩ := Option.map_eq_some_iff.mp h
    have hsettles := @Engine.settles_settleCompensation _ V E _ saga env
      { engine with phase := .compensating error, crew := crew.1 } error
    obtain ⟨hstate, hevents⟩ := Prod.mk.inj hnext
    rw [hstate] at hsettles
    have hafter := hsettles.after (unclosed_compensations crew.2)
      (stepEvents_map_compensation crew.2)
    rw [hevents] at hafter
    exact ⟨⟨⟨_, hafter⟩, .aside hafter.orchestration⟩, Or.inl trivial⟩
  | completing verdict =>
    rw [hphase] at h
    obtain ⟨port, _, hnext⟩ := Option.map_eq_some_iff.mp h
    have hsettles := @Engine.settles_enterMarking _ V E _ saga env engine verdict
    exact ⟨Engine.settles_afterCall hsettles
        (.aside hsettles.orchestration) hnext, Or.inl trivial⟩
  | marking verdict =>
    rw [hphase] at h
    obtain ⟨port, _, hnext⟩ := Option.map_eq_some_iff.mp h
    have hsettles := @Engine.settles_silently _ V E engine { engine with
        phase := .finished (Engine.conclude saga env verdict
          engine.orchestration.ctx) } rfl
    refine ⟨Engine.settles_afterCall hsettles (.aside hsettles.orchestration) hnext, Or.inr ?_⟩
    cases hreply : markReply port verdict.success cancelled with
    | _ =>
      rw [hreply] at hnext
      cases hnext
      exact ⟨rfl, id⟩
  | finished outcome =>
    rw [hphase] at h
    cases h

end Moves

section Runs

variable [LinearOrder ι] {saga : SagaDefinition ι} {env : Environment ι V E}
variable {request : SagaRequest}
variable {engine next : Engine ι V E}
variable {trace events : List (EngineEvent ι V E)}

/-- Whenever `mark_completed` is called with `False`, the compensator has been
called with every step whose action has returned. -/
def MarksCompensated (trace : List (EngineEvent ι V E)) : Prop :=
  ∀ before after, trace = before ++ .marked false :: after →
    ∀ step, ActionReturned step before →
      ∃ completed, .compensationEntered completed ∈ before ∧ step ∈ completed

/-- From a call of `mark_completed` with `False` on every step has been
compensated whose action had returned, every task is gone and the orchestrator
creates no other one. -/
structure MarkedSafely (engine : Engine ι V E)
    (trace : List (EngineEvent ι V E)) : Prop where
  compensated : MarksCompensated trace
  idle : .marked false ∈ trace → engine.orchestration.Idle ∧ engine.orchestration.Settled

/-- A move which neither cancels the caller while the orchestrator is awaited,
nor lets `on_step_success` raise, nor lets the action of an abandoned thread
return for a step which is not `DONE`. -/
def Engine.Orderly (env : Environment ι V E) (engine : Engine ι V E) : EnginePick ι → Prop
  | .cancelCaller => engine.phase ≠ .executing
  | .task step => ¬ (engine.orchestration.tasks step).Obstructed env step
  | .thread index => engine.phase.Unmarked → ∀ step attempt value,
      engine.orchestration.threads[index]? = some (step, attempt) →
      (env.attempt step attempt).reply = .ok value →
        engine.orchestration.ctx.status? step = some .done
  | _ => True

structure Accounted (engine : Engine ι V E)
    (trace : List (EngineEvent ι V E)) : Prop where
  active : engine.orchestration.main ≠ .cancelled
  returned : engine.phase.Unmarked → ∀ step, ActionReturned step trace →
    engine.orchestration.ctx.status? step = some .done
  retried : ∀ step attempt, (engine.orchestration.tasks step).phase = .backingOff attempt →
      engine.orchestration.ctx.status? step ≠ some .done
  unmarked : engine.phase.Unmarked → ∀ success, .marked success ∉ trace
  compensated : MarksCompensated trace
  settled : .marked false ∈ trace → engine.orchestration.Settled

omit [LinearOrder ι] in
theorem ActionReturned.of_append {step : ι} (hsteps : stepEvents events = [])
    (h : ActionReturned step (trace ++ events)) : ActionReturned step trace := by
  have hold : ∀ effect : StepEffect ι V E,
      .step (step, effect) ∈ trace ++ events → .step (step, effect) ∈ trace := by
    intro effect hmem
    rcases mem_append.mp hmem with hold | hnew
    · exact hold
    · have hin := mem_stepEvents.mpr hnew
      rw [hsteps] at hin
      cases hin
  obtain ⟨attempt, value, hmem | hmem⟩ := h
  · exact ⟨attempt, value, Or.inl (hold _ hmem)⟩
  · exact ⟨attempt, value, Or.inr (hold _ hmem)⟩

omit [LinearOrder ι] in
theorem MarksCompensated.append (h : MarksCompensated trace)
    (hunmarked : .marked false ∉ events) :
    MarksCompensated (trace ++ events) := by
  intro before after hsplit
  rcases append_eq_append_iff.mp hsplit with
    ⟨middle, _, htail⟩ | ⟨middle, htrace, htail⟩
  · refine absurd ?_ hunmarked
    rw [htail]
    exact mem_append_right middle mem_cons_self
  · cases middle with
    | nil =>
      refine absurd ?_ hunmarked
      rw [← show EngineEvent.marked false :: after = events from htail]
      exact mem_cons_self
    | cons head rest =>
      obtain ⟨hhead, _⟩ := List.cons.inj htail
      rw [← hhead] at htrace
      exact h before rest htrace

omit [LinearOrder ι] in
theorem marked_notMem_steps (steps : List (StepEvent ι V E)) (success : Bool) :
    (.marked success : EngineEvent ι V E) ∉ steps.map EngineEvent.step := by
  simp

omit [LinearOrder ι] in
theorem marked_notMem_compensations
    (signals : List (CompensationSignal ι V E)) (success : Bool) :
    (.marked success : EngineEvent ι V E) ∉ signals.map EngineEvent.compensation := by
  simp

theorem EnginePhase.Past.verdict_eq {verdict other : Verdict E}
    {ctx : SagaContext ι V E} {phase : EnginePhase ι V E}
    (h : phase.Past saga env other ctx) (hphase : phase = .marking verdict) :
    verdict = other := by
  cases h with
  | marking => exact (EnginePhase.marking.inj hphase).symm
  | _ => cases hphase

/-- When `mark_completed` is called with `False`, the compensator has been
called with the steps which are `DONE`. -/
theorem Engine.Stage.compensated_of_marking
    (hstage : engine.Stage saga env request False (trace ++ [.marked false]))
    (hactive : engine.orchestration.main ≠ .cancelled)
    {verdict : Verdict E} (hphase : engine.phase = .marking verdict)
    (hfailed : verdict.success = false) :
    engine.orchestration.Settled ∧ ∀ step, engine.orchestration.ctx.status? step = some .done →
        ∃ completed, .compensationEntered completed ∈ trace ∧ step ∈ completed := by
  cases hstage with
  | unstarted hstart horchestration hcrew hparts =>
    rw [hphase] at hstart
    rcases hstart with hstart | hstart | ⟨error, hstart⟩ | hstart
    · cases hstart
    · cases hstart
    · cases hstart
    · cases hstart
  | executing schedule hcalm hrun hexecuting hmain hcrew hsignals hentries =>
    rw [hphase] at hexecuting
    cases hexecuting
  | concluded schedule hcalm hrun other hverdict hpast hcrew hsignals hentries =>
      rw [hpast.verdict_eq hphase] at hfailed
      rcases hverdict with ⟨_, hreturned⟩ | ⟨hcancelled, _⟩
      · rw [hreturned] at hfailed
        cases hfailed
      · exact absurd hcancelled hactive
  | compensating schedule crewSchedule hcalm hrun error hraised hcrewRun hentries hend =>
      refine ⟨Or.inr ⟨error, hraised⟩, fun step hdone =>
        ⟨engine.orchestration.ctx.doneSteps, ?_, SagaContext.mem_doneSteps.mpr hdone⟩⟩
      have hmem : .compensationEntered engine.orchestration.ctx.doneSteps ∈
          trace ++ [.marked false] := by
        apply mem_compensationEntries.mp
        rw [hentries]
        exact mem_cons_self
      rcases mem_append.mp hmem with hbefore | hlast
      · exact hbefore
      · cases mem_singleton.mp hlast

theorem Engine.Stage.idle_of_settled (hstage : engine.Stage saga env request False trace)
    (hsettled : engine.orchestration.Settled) :
    engine.orchestration.Idle := by
  have hidle : ∀ schedule, orchestrate saga env request schedule =
      ⟨engine.orchestration, stepEvents trace⟩ → engine.orchestration.Idle := by
    intro schedule hrun
    have hidle := @orchestrate_idle _ V E _ saga env request schedule
    rw [hrun] at hidle
    exact hidle hsettled
  cases hstage with
  | unstarted hphase horchestration hcrew hparts =>
    rw [horchestration]
    exact fun _ => Or.inl rfl
  | executing schedule hcalm hrun hphase hmain hcrew hsignals hentries =>
    exact hidle schedule hrun
  | concluded schedule hcalm hrun verdict hverdict hpast hcrew hsignals
      hentries => exact hidle schedule hrun
  | compensating schedule crewSchedule hcalm hrun error hraised hcrewRun
      hentries hend => exact hidle schedule hrun

theorem Engine.Stage.invariant {layers : List (List ι)}
    (hlayers : computeLayers saga.deps = .ok layers)
    (hstage : engine.Stage saga env request False trace) :
    (stepEvents trace = [] ∧ engine.orchestration =
      (Engine.blank (request.context saga)).orchestration) ∨
    Orchestration.Invariant saga env layers engine.orchestration (stepEvents trace) := by
  have hinvariant : ∀ schedule, orchestrate saga env request schedule =
      ⟨engine.orchestration, stepEvents trace⟩ →
        Orchestration.Invariant saga env layers engine.orchestration (stepEvents trace) := by
    intro schedule hrun
    have hinv := @orchestrate_invariant _ V E _ saga env _ hlayers request schedule
    rwa [hrun] at hinv
  cases hstage with
  | unstarted hphase horchestration hcrew hparts =>
    exact Or.inl ⟨hparts.steps, horchestration⟩
  | executing schedule hcalm hrun hphase hmain hcrew hsignals hentries =>
    exact Or.inr (hinvariant schedule hrun)
  | concluded schedule hcalm hrun verdict hverdict hpast hcrew hsignals
      hentries => exact Or.inr (hinvariant schedule hrun)
  | compensating schedule crewSchedule hcalm hrun error hraised hcrewRun
      hentries hend => exact Or.inr (hinvariant schedule hrun)

theorem Engine.Stage.steps_of_early (hstage : engine.Stage saga env request False trace)
    (hphase : engine.phase = .starting ∨ engine.phase = .persisting) :
    stepEvents trace = [] := by
  cases hstage with
  | unstarted hstart horchestration hcrew hparts => exact hparts.steps
  | executing schedule hcalm hrun hexecuting hmain hcrew hsignals hentries =>
    rw [hexecuting] at hphase
    rcases hphase with hphase | hphase
    · cases hphase
    · cases hphase
  | concluded schedule hcalm hrun verdict hverdict hpast hcrew hsignals hentries =>
      refine absurd ?_ hpast.not_early
      rcases hphase with hphase | hphase
      · rw [hphase]
        trivial
      · rw [hphase]
        trivial
  | compensating schedule crewSchedule hcalm hrun error hraised hcrewRun hentries hend =>
      rcases hend with ⟨hcompensating, _⟩ | ⟨result, _, hpast⟩
      · rw [hcompensating] at hphase
        rcases hphase with hphase | hphase
        · cases hphase
        · cases hphase
      · refine absurd ?_ hpast.not_early
        rcases hphase with hphase | hphase
        · rw [hphase]
          trivial
        · rw [hphase]
          trivial

/-! ### What one move preserves -/

/-- A move in which neither the orchestrator nor `mark_completed` takes
part. -/
theorem Accounted.aside (h : Accounted engine trace)
    (horchestration : next.orchestration = engine.orchestration)
    (hphase : next.phase = engine.phase) (hsteps : stepEvents events = [])
    (hunmarked : ∀ success, .marked success ∉ events) :
    Accounted next (trace ++ events) := by
  constructor
  · rw [horchestration]
    exact h.active
  · rw [hphase, horchestration]
    intro hearly step hreturned
    exact h.returned hearly step (hreturned.of_append hsteps)
  · rw [horchestration]
    exact h.retried
  · rw [hphase]
    intro hearly success hmem
    rcases mem_append.mp hmem with hold | hnew
    · exact h.unmarked hearly success hold
    · exact hunmarked success hnew
  · exact h.compensated.append (hunmarked false)
  · rw [horchestration]
    intro hmem
    rcases mem_append.mp hmem with hold | hnew
    · exact h.settled hold
    · exact absurd hnew (hunmarked false)

theorem Accounted.moveCompensations (h : Accounted engine trace) {pick : CrewPick}
    (hmove : engine.moveCompensations env pick = some (next, events)) :
    Accounted next (trace ++ events) := by
  obtain ⟨moved, _, hnext⟩ := Option.map_eq_some_iff.mp hmove
  obtain ⟨hstate, hevents⟩ := Prod.mk.inj hnext
  rw [← hevents]
  apply h.aside _ _ (stepEvents_map_compensation moved.2) (marked_notMem_compensations moved.2)
  · rw [← hstate]
  · rw [← hstate]

theorem Orchestration.openLayer_frame (position : ℕ) (config : Orchestration ι V E) :
    (openLayer saga position config).ctx = config.ctx ∧ ∀ step attempt,
      ((openLayer saga position config).tasks step).phase = .backingOff attempt →
        (config.tasks step).phase = .backingOff attempt := by
  unfold openLayer
  cases config.ctx.topologyLayers[position]? with
  | none => exact ⟨rfl, fun _ _ hphase => hphase⟩
  | some layer =>
    refine ⟨rfl, ?_⟩
    intro step attempt hphase
    dsimp only at hphase
    by_cases hmem : step ∈ layer
    · unfold createTasks at hphase
      cases hget : saga.steps.get? step with
      | none =>
        rw [hget] at hphase
        exact hphase
      | some stepDef =>
        rw [hget] at hphase
        dsimp only at hphase
        rw [if_pos hmem] at hphase
        cases hphase
    · rw [createTasks_of_notMem hmem] at hphase
      exact hphase

variable {choice : ℕ}

theorem Orchestration.resumeMain_frame {config moved : Orchestration ι V E}
    (h : config.resumeMain saga choice = some moved) :
    moved.ctx = config.ctx ∧ ∀ step attempt, (moved.tasks step).phase = .backingOff attempt →
        (config.tasks step).phase = .backingOff attempt := by
  rcases resumeMain_cases h with
    ⟨error, pending, _, _, _, hfailed⟩ | ⟨_, _, hopened⟩ | ⟨error, _, _, hraised⟩
  · rcases hfailed with ⟨_, hmoved⟩ | ⟨_, hmoved⟩
    · rw [hmoved]
      exact ⟨rfl, fun _ _ hphase => hphase⟩
    · rw [hmoved]
      refine ⟨rfl, ?_⟩
      intro step attempt hphase
      dsimp only at hphase
      rwa [requestCancel_phase] at hphase
  · rw [hopened]
    exact openLayer_frame _ config
  · rw [hraised]
    exact ⟨rfl, fun _ _ hphase => hphase⟩

theorem Orchestration.start_not_backing (ctx : SagaContext ι V E) (step : ι) (attempt : ℕ) :
    ((Orchestration.start saga env ctx).tasks step).phase ≠ .backingOff attempt := by
  unfold Orchestration.start
  cases computeLayers saga.deps with
  | error error =>
    intro hphase
    cases hphase
  | ok layers =>
    intro hphase
    have hblank := (openLayer_frame _ _).2 step attempt hphase
    cases hblank

theorem Accounted.moveTask {layers : List (List ι)}
    (hlayers : computeLayers saga.deps = .ok layers)
    (h : Accounted engine trace)
    (hstage : engine.Stage saga env request False trace) {step : ι}
    (hclear : ¬ (engine.orchestration.tasks step).Obstructed env step)
    (hmove : engine.moveSteps saga env (.task step) = some (next, events)) :
    Accounted next (trace ++ events) := by
  obtain ⟨moved, hmoved, hnext⟩ := Option.map_eq_some_iff.mp hmove
  obtain ⟨hstate, hevents⟩ := Prod.mk.inj hnext
  have hphase : next.phase = engine.phase := by rw [← hstate]
  have horchestration : next.orchestration = moved.1 := by rw [← hstate]
  change engine.orchestration.resumeTask saga env step = some moved at hmoved
  rcases hstage.invariant hlayers with ⟨_, hblank⟩ | hinv
  · have hidle : engine.orchestration.Idle := by
      rw [hblank]
      exact fun _ => Or.inl rfl
    rw [hidle.resumeTask] at hmoved
    cases hmoved
  · obtain ⟨stepDef, task, effects, hget, hresume, hsteps, hafter⟩ :=
      Orchestration.resumeTask_eq_some hmoved
    have hid := SagaDefinition.id_of_get? hget
    have hhonest := StepTask.honest_resume (hinv.record step stepDef hget)
      (fun attempt hbacking => by
        rw [← hinv.status]
        exact h.retried step attempt hbacking)
      (by rwa [hid]) hresume
    have hself : moved.1.ctx.status? step =
        ((summaryOf step (stepEvents trace)).noteAll effects).status? := by
      rw [hafter]
      exact Orchestration.foldl_absorb_status_self step _ effects (hinv.status step)
    have hother : ∀ other, other ≠ step → moved.1.ctx.status? other =
          engine.orchestration.ctx.status? other := by
      intro other hne
      rw [hafter]
      exact Orchestration.foldl_absorb_status_of_ne step _ effects hne
    have hframe := Orchestration.foldl_absorb_frame step { engine.orchestration with
        tasks := Function.update engine.orchestration.tasks step task }
      effects
    rw [← hafter] at hframe
    have hunmarked : ∀ success, .marked success ∉ events := by
      intro success
      rw [← hevents]
      exact marked_notMem_steps moved.2 success
    have hnew : ∀ other effect, .step (other, effect) ∈ events →
        other = step ∧ effect ∈ effects := by
      intro other effect hmem
      rw [← hevents, hsteps] at hmem
      obtain ⟨event, hevent, hsame⟩ := mem_map.mp hmem
      obtain ⟨found, hfound, hpair⟩ := mem_map.mp hevent
      rw [← hpair] at hsame
      obtain ⟨hstep, heffect⟩ := Prod.mk.inj (EngineEvent.step.inj hsame)
      rw [← hstep, ← heffect]
      exact ⟨rfl, hfound⟩
    have hthread : ∀ attempt value,
        (.threadReturned attempt value : StepEffect ι V E) ∉ effects := by
      intro attempt value hmem
      have hnone := countP_eq_zero.mp
        (StepTask.transition_of_resume hresume).no_thread_returned _ hmem
      exact hnone rfl
    constructor
    · rw [horchestration, hframe.2.2.1]
      exact h.active
    · rw [hphase, horchestration]
      intro hearly other hreturned
      have hold : ActionReturned other trace → moved.1.ctx.status? other = some .done := by
        intro hbefore
        have hdone := h.returned hearly other hbefore
        by_cases hsame : other = step
        · rw [hsame] at hdone ⊢
          rw [hself]
          apply hhonest.stays
          rw [← hinv.status]
          exact hdone
        · rw [hother other hsame]
          exact hdone
      obtain ⟨attempt, value, hmem | hmem⟩ := hreturned
      · rcases mem_append.mp hmem with hbefore | hafterwards
        · exact hold ⟨attempt, value, Or.inl hbefore⟩
        · obtain ⟨hsame, heffect⟩ := hnew other _ hafterwards
          rw [hsame, hself]
          exact hhonest.returned ⟨attempt, value, heffect⟩
      · rcases mem_append.mp hmem with hbefore | hafterwards
        · exact hold ⟨attempt, value, Or.inr hbefore⟩
        · exact absurd (hnew other _ hafterwards).2 (hthread attempt value)
    · intro other attempt hbacking
      rw [horchestration] at hbacking ⊢
      rw [hframe.1] at hbacking
      by_cases hsame : other = step
      · rw [hsame] at hbacking ⊢
        dsimp only at hbacking
        rw [Function.update_self] at hbacking
        rw [hself]
        exact hhonest.retried attempt hbacking
      · dsimp only at hbacking
        rw [Function.update_of_ne hsame] at hbacking
        rw [hother other hsame]
        exact h.retried other attempt hbacking
    · rw [hphase]
      intro hearly success hmem
      rcases mem_append.mp hmem with hold | hfresh
      · exact h.unmarked hearly success hold
      · exact hunmarked success hfresh
    · exact h.compensated.append (hunmarked false)
    · intro hmem
      unfold Orchestration.Settled
      rw [horchestration, hframe.2.2.1]
      rcases mem_append.mp hmem with hold | hfresh
      · exact h.settled hold
      · exact absurd hfresh (hunmarked false)

theorem Accounted.moveThread (h : Accounted engine trace) {index : ℕ}
    (hdone : engine.phase.Unmarked → ∀ step attempt value,
      engine.orchestration.threads[index]? = some (step, attempt) →
      (env.attempt step attempt).reply = .ok value →
        engine.orchestration.ctx.status? step = some .done)
    (hmove : engine.moveSteps saga env (.thread index) = some (next, events)) :
    Accounted next (trace ++ events) := by
  obtain ⟨moved, hmoved, hnext⟩ := Option.map_eq_some_iff.mp hmove
  obtain ⟨hstate, hevents⟩ := Prod.mk.inj hnext
  have hphase : next.phase = engine.phase := by rw [← hstate]
  change engine.orchestration.finishThread env index = some moved at hmoved
  unfold Orchestration.finishThread at hmoved
  cases hthread : engine.orchestration.threads[index]? with
  | none =>
    rw [hthread] at hmoved
    cases hmoved
  | some thread =>
    rw [hthread] at hmoved
    obtain ⟨step, attempt⟩ := thread
    have hmovedEq := Option.some.inj hmoved
    have hctx : next.orchestration.ctx = engine.orchestration.ctx := by
      rw [← hstate, ← hmovedEq]
    have hmain : next.orchestration.main = engine.orchestration.main := by
      rw [← hstate, ← hmovedEq]
    have htasks : next.orchestration.tasks = engine.orchestration.tasks := by
      rw [← hstate, ← hmovedEq]
    have heventsEq : events = [.step (step, Orchestration.threadEnded env step attempt)] := by
      rw [← hevents, ← hmovedEq]
      rfl
    have hunmarked : ∀ success, .marked success ∉ events := by
      intro success
      rw [heventsEq]
      simp
    constructor
    · rw [hmain]
      exact h.active
    · rw [hphase, hctx]
      intro hearly other hreturned
      have hfound : ∀ effect : StepEffect ι V E, .step (other, effect) ∈ events → other = step ∧
            effect = Orchestration.threadEnded env step attempt := by
        intro effect hmem
        rw [heventsEq] at hmem
        exact Prod.mk.inj (EngineEvent.step.inj (mem_singleton.mp hmem))
      obtain ⟨found, value, hmem | hmem⟩ := hreturned
      · rcases mem_append.mp hmem with hold | hnew
        · exact h.returned hearly other ⟨found, value, Or.inl hold⟩
        · have heffect := (hfound _ hnew).2
          unfold Orchestration.threadEnded at heffect
          split at heffect
          · cases heffect
          · cases heffect
      · rcases mem_append.mp hmem with hold | hnew
        · exact h.returned hearly other ⟨found, value, Or.inr hold⟩
        · obtain ⟨hsame, heffect⟩ := hfound _ hnew
          unfold Orchestration.threadEnded at heffect
          split at heffect
          · next result hreply =>
              rw [hsame]
              exact hdone hearly step attempt result hthread hreply
          · cases heffect
    · rw [htasks, hctx]
      exact h.retried
    · rw [hphase]
      intro hearly success hmem
      rcases mem_append.mp hmem with hold | hnew
      · exact h.unmarked hearly success hold
      · exact hunmarked success hnew
    · exact h.compensated.append (hunmarked false)
    · intro hmem
      unfold Orchestration.Settled
      rw [hmain]
      rcases mem_append.mp hmem with hold | hnew
      · exact h.settled hold
      · exact absurd hnew (hunmarked false)

theorem Accounted.settles (h : Accounted engine trace)
    (hstage : engine.Stage saga env request False trace)
    (hnextStage : next.Stage saga env request False (trace ++ events))
    {cancelled : Bool}
    (hcancelled : cancelled = true → engine.phase ≠ .executing)
    {middle : Engine ι V E} (hsettles : middle.Settles next events)
    (hdrives : Engine.Drives saga env cancelled choice engine next)
    (hphases : engine.phase.Unmarked ∨ events = [] ∧ ¬ next.phase.Unmarked) :
    Accounted next (trace ++ events) := by
  have hactive : next.orchestration.main ≠ .cancelled := by
    cases hdrives with
    | aside hsame =>
      rw [hsame]
      exact h.active
    | starts hphase hstart =>
      rw [hstart]
      unfold Orchestration.start
      cases computeLayers saga.deps with
      | error error => simp
      | ok layers => exact Orchestration.openLayer_main_ne_cancelled _ _
    | resumes hphase hmoved =>
      cases cancelled with
      | true => exact absurd hphase (hcancelled rfl)
      | false =>
        apply @Orchestration.main_ne_cancelled_step _ V E _ saga env
          engine.orchestration next.orchestration [] (.main choice)
          (by simp) h.active
        exact congrArg (Option.map (·, [])) hmoved
  have hsteps : ∀ step, ActionReturned step trace → engine.phase.Unmarked →
      next.orchestration.ctx.status? step = some .done := by
    intro step hreturned hunmarked
    cases hdrives with
    | aside hsame =>
      rw [hsame]
      exact h.returned hunmarked step hreturned
    | starts hphase hstart =>
      have hnone := hstage.steps_of_early hphase
      obtain ⟨attempt, value, hmem | hmem⟩ := hreturned
      · have hin := mem_stepEvents.mpr hmem
        rw [hnone] at hin
        cases hin
      · have hin := mem_stepEvents.mpr hmem
        rw [hnone] at hin
        cases hin
    | resumes hphase hmoved =>
      cases cancelled with
      | true => exact absurd hphase (hcancelled rfl)
      | false =>
        rw [(Orchestration.resumeMain_frame hmoved).1]
        exact h.returned hunmarked step hreturned
  -- a call of `mark_completed` is the last event of its stretch
  have hmarks : ∀ before after, events = before ++ .marked false :: after →
      next.orchestration.Settled ∧ ∀ step, ActionReturned step (trace ++ before) →
          ∃ completed, .compensationEntered completed ∈ trace ++ before ∧ step ∈ completed := by
    intro before after hsplit
    obtain ⟨hlast, verdict, hphase, hfailed⟩ :=
      hsettles.marks before false after hsplit
    have hunmarked : engine.phase.Unmarked := by
      rcases hphases with hunmarked | ⟨hnil, _⟩
      · exact hunmarked
      · rw [hnil] at hsplit
        exact absurd hsplit (by simp)
    have hbefore : stepEvents before = [] := by
      have hnone := hsettles.steps
      rw [hsplit, stepEvents_append] at hnone
      exact (append_eq_nil_iff.mp hnone).1
    rw [hsplit, hlast, ← append_assoc] at hnextStage
    obtain ⟨hsettled, hdone⟩ :=
      hnextStage.compensated_of_marking hactive hphase hfailed
    exact ⟨hsettled, fun step hreturned =>
      hdone step (hsteps step (hreturned.of_append hbefore) hunmarked)⟩
  constructor
  · exact hactive
  · intro hnext step hreturned
    rcases hphases with hunmarked | ⟨_, hlate⟩
    · exact hsteps step (hreturned.of_append hsettles.steps) hunmarked
    · exact absurd hnext hlate
  · intro step attempt hphase
    cases hdrives with
    | aside hsame =>
      rw [hsame] at hphase ⊢
      exact h.retried step attempt hphase
    | starts hstarting hstart =>
      rw [hstart] at hphase
      exact absurd hphase (Orchestration.start_not_backing _ step attempt)
    | resumes hexecuting hmoved =>
      cases cancelled with
      | true => exact absurd hexecuting (hcancelled rfl)
      | false =>
        obtain ⟨hctx, hbacking⟩ := Orchestration.resumeMain_frame hmoved
        rw [hctx]
        exact h.retried step attempt (hbacking step attempt hphase)
  · intro hnext success hmem
    rcases mem_append.mp hmem with hold | hnew
    · rcases hphases with hunmarked | ⟨_, hlate⟩
      · exact h.unmarked hunmarked success hold
      · exact absurd hnext hlate
    · obtain ⟨before, after, hsplit⟩ := append_of_mem hnew
      obtain ⟨_, verdict, hphase, _⟩ :=
        hsettles.marks before success after hsplit
      rw [hphase] at hnext
      exact hnext
  · intro before after hsplit
    rcases append_eq_append_iff.mp hsplit with
      ⟨middle, hbefore, htail⟩ | ⟨middle, htrace, htail⟩
    · rw [hbefore]
      exact (hmarks middle after htail).2
    · cases middle with
      | nil =>
        rw [append_nil] at htrace
        have hall := (hmarks [] after htail.symm).2
        rw [append_nil, htrace] at hall
        exact hall
      | cons head rest =>
        obtain ⟨hhead, _⟩ := List.cons.inj htail
        rw [← hhead] at htrace
        exact h.compensated before rest htrace
  · intro hmem
    rcases mem_append.mp hmem with hold | hnew
    · have hlate : ¬ engine.phase.Unmarked :=
        fun hunmarked => h.unmarked hunmarked false hold
      cases hdrives with
      | aside hsame =>
        rw [hsame]
        exact h.settled hold
      | starts hphase hstart =>
        refine absurd ?_ hlate
        rcases hphase with hphase | hphase
        · rw [hphase]
          trivial
        · rw [hphase]
          trivial
      | resumes hphase hmoved =>
        rw [hphase] at hlate
        exact absurd trivial hlate
    · obtain ⟨before, after, hsplit⟩ := append_of_mem hnew
      exact (hmarks before after hsplit).1

theorem Accounted.resumeMain (h : Accounted engine trace)
    (hstage : engine.Stage saga env request False trace)
    (hnextStage : next.Stage saga env request False (trace ++ events))
    {cancelled : Bool}
    (hcancelled : cancelled = true → engine.phase ≠ .executing)
    (hmove : engine.resumeMain saga env request.policy cancelled choice = some (next, events)) :
    Accounted next (trace ++ events) := by
  obtain ⟨⟨⟨middle, hsettles⟩, hdrives⟩, hphases⟩ :=
    Engine.resumeMain_settles hmove
  exact h.settles hstage hnextStage hcancelled hsettles hdrives hphases

theorem accounted_nil {config : Orchestration ι V E} (hmain : config.main = .waiting)
    (htasks : ∀ step, (config.tasks step).phase = .absent) :
    Accounted ⟨.starting, config, idleCrew⟩ ([] : List (EngineEvent ι V E)) where
  active := by simp [hmain]
  returned := by
    intro _ step hreturned
    obtain ⟨attempt, value, hmem | hmem⟩ := hreturned
    · cases hmem
    · cases hmem
  retried := by
    intro step attempt hphase
    rw [htasks] at hphase
    cases hphase
  unmarked := by simp
  compensated := by
    intro before after hsplit
    exact absurd hsplit (by simp)
  settled := by simp

theorem accounted_start (saga : SagaDefinition ι) (env : Environment ι V E)
    (request : SagaRequest) :
    Accounted (Engine.start saga env request.policy (request.context saga)).1
      (Engine.start saga env request.policy (request.context saga)).2 := by
  have hblank : Accounted (Engine.blank (request.context saga))
      ([] : List (EngineEvent ι V E)) :=
    accounted_nil rfl fun _ => rfl
  have hstage : (Engine.blank (request.context saga)).Stage saga env request
      False ([] : List (EngineEvent ι V E)) :=
    .unstarted (Or.inl rfl) rfl rfl .nil
  have hstarted := Engine.stage_start saga env request False
  unfold Engine.start at hstarted ⊢
  cases hevents : env.events with
  | some port => exact hblank.aside rfl rfl rfl (by simp)
  | none =>
    rw [hevents] at hstarted
    unfold Engine.enterPersisting at hstarted ⊢
    cases hpersistence : env.persistence with
    | some store =>
      rw [hpersistence] at hstarted
      have hsettles : (Engine.blank (request.context saga)).Settles
          { Engine.blank (request.context saga) with
            phase := .persisting }
          ([.statePersisted] : List (EngineEvent ι V E)) :=
        Engine.settles_of_unmarked rfl rfl (by simp)
      exact hblank.settles hstage hstarted (by simp) hsettles
        (show Engine.Drives saga env false 0 _ _ from .aside rfl)
        (Or.inl trivial)
    | none =>
      rw [hpersistence] at hstarted
      have hsettles := @Engine.settles_settleExecution _ V E _ saga env request.policy
        { Engine.blank (request.context saga) with
          phase := .executing
          orchestration := Orchestration.start saga env (request.context saga) }
      exact hblank.settles hstage hstarted (by simp) hsettles
        (show Engine.Drives saga env false 0 _ _ from
          .starts (Or.inl rfl) hsettles.orchestration) (Or.inl trivial)

theorem Accounted.step {layers : List (List ι)} (hlayers : computeLayers saga.deps = .ok layers)
    (h : Accounted engine trace)
    (hstage : engine.Stage saga env request False trace)
    {pick : EnginePick ι} (horderly : engine.Orderly env pick)
    (hmove : engine.step saga env request.policy pick = some (next, events)) :
    Accounted next (trace ++ events) := by
  have hnextStage := hstage.step (fun hcalm => hcalm.elim) hmove
  cases pick with
  | main choice =>
    exact h.resumeMain hstage hnextStage (by simp) hmove
  | cancelCaller =>
    exact h.resumeMain hstage hnextStage (fun _ => horderly) hmove
  | task step => exact h.moveTask hlayers hstage horderly hmove
  | thread index => exact h.moveThread horderly hmove
  | child index => exact h.moveCompensations hmove
  | orphan index => exact h.moveCompensations hmove

end Runs

/-- The second step raises, and a cancellation of the compensator goes on. -/
def storedEnvironment (failing : ℕ) : Environment ℕ Unit Unit :=
  { Environment.failing failing () () with
    persistence :=
      some ⟨none, .propagates, fun _ => none, fun _ => .propagates⟩ }

end PyFly.Saga
