import PyFly.CompensationRetry
import PyFly.Library.CalmGather
import Mathlib.Data.List.Rotate

/-!
# What a normal return of the compensator promises

When `compensate` returns normally, the compensations have been carried out.
For the sequential, the retrying and the grouped policy this is followed from
the single invocation up to the loop over all steps, whatever the replies and
the interleaving are.
-/

namespace PyFly.Saga

open Library Transactional List

variable {ι V E : Type}

def Recovered (step : ι) (trace : List (CompensationSignal ι V E)) : Prop :=
  ∃ stepDef attempt value,
    .answered (.invoke stepDef attempt) (.ok value) ∈ trace ∧ stepDef.id = step

namespace Compensating

variable {env : Environment ι V E} {stepDef : StepDefinition ι}

def Succeeds (stepDef : StepDefinition ι)
    (dialogue : List (CompensationQuery ι E × CompensationReply V E)) :
    Prop :=
  ∃ attempt value, (.invoke stepDef attempt, .ok value) ∈ dialogue

theorem Succeeds.append {dialogue : List (CompensationQuery ι E × CompensationReply V E)}
    (h : Succeeds stepDef dialogue)
    (before after : List (CompensationQuery ι E × CompensationReply V E)) :
    Succeeds stepDef (before ++ dialogue ++ after) := by
  obtain ⟨attempt, value, hmem⟩ := h
  exact ⟨attempt, value, mem_append_left _ (mem_append_right _ hmem)⟩

theorem except_ensures (attempt : ℕ) (skipErrorHandler : Bool) (fault : Fault E) :
    Async.Ensures (fun _ result => result ≠ .ok ()) (exceptException (fun error => do
        emitCompensated env stepDef.id attempt (some error)
        if skipErrorHandler then pure ()
        else handleError env stepDef.id error
        if true then Async.throw (.exception error) else pure () :
          E → Compensating ι V E Unit) fault) := by
  cases fault with
  | cancelled =>
    intro h
    cases h
  | exception error =>
    apply Async.Ensures.bind (Coroutine.ensures_of_forall (fun _ _ => trivial) _)
    · intro dialogue fault _ h
      cases h
    · intro dialogue value _
      cases skipErrorHandler with
      | true =>
        intro h
        cases h
      | false =>
        apply Async.Ensures.bind (Coroutine.ensures_of_forall (fun _ _ => trivial) _)
        · intro more fault _ h
          cases h
        · intro more value _ h
          cases h

theorem invokeOne_ensures (attempt : ℕ) (skipErrorHandler : Bool) :
    Async.Ensures (fun dialogue result => result = .ok () → Succeeds stepDef dialogue)
      (invokeOne env stepDef attempt true skipErrorHandler) := by
  rw [invokeOne_eq_await]
  intro reply
  cases reply with
  | ok value =>
    apply Coroutine.ensures_of_forall
    intro dialogue result _
    exact ⟨attempt, value, mem_cons_self⟩
  | error fault =>
    have hexcept :=
      @except_ensures _ _ _ env stepDef attempt skipErrorHandler fault
    refine Coroutine.Ensures.imp ?_ hexcept
    intro dialogue result hne hok
    exact absurd hok hne

theorem retryAttempt_ensures (maxRetries backoffMs : ℤ) (attempt : ℕ) :
    Async.Ensures (fun dialogue result => result = .ok none → Succeeds stepDef dialogue)
      (retryAttempt env stepDef maxRetries backoffMs attempt) := by
  have hbody : Async.Ensures (fun dialogue result =>
        ∀ value, result = .ok value → Succeeds stepDef dialogue)
      (do
        invokeOne env stepDef attempt true true
        pure none : Compensating ι V E (Option E)) := by
    apply Async.Ensures.bind (invokeOne_ensures attempt true)
    · intro dialogue fault _ value h
      cases h
    · intro dialogue value hsucceeds _ _
      have h := (hsucceeds rfl).append [] []
      rwa [nil_append] at h
  apply Async.Ensures.catching hbody
  · intro dialogue value hsucceeds _
    exact hsucceeds value rfl
  · intro dialogue fault _
    cases fault with
    | cancelled =>
      intro h
      cases h
    | exception error =>
      show Async.Ensures _ (do
        if (attempt : ℤ) < maxRetries - 1 then
          perform (.sleep stepDef.id attempt (backoffMs * 2 ^ attempt))
        else pure ()
        pure (some error))
      by_cases hlast : (attempt : ℤ) < maxRetries - 1
      · rw [if_pos hlast]
        apply Async.Ensures.bind (Coroutine.ensures_of_forall (fun _ _ => trivial) _)
        · intro more fault _ h
          cases h
        · intro more value _ h
          cases h
      · rw [if_neg hlast]
        intro h
        cases h

theorem retryAttempts_ensures (maxRetries backoffMs : ℤ)
    (remaining attempt : ℕ) (error : Option E) :
    Async.Ensures (fun dialogue result => result = .ok none →
        remaining = 0 ∨ Succeeds stepDef dialogue)
      (retryAttempts env stepDef maxRetries backoffMs remaining attempt error) := by
  induction remaining generalizing attempt error with
  | zero =>
    intro _
    exact Or.inl rfl
  | succ remaining ih =>
    apply Async.Ensures.bind (retryAttempt_ensures maxRetries backoffMs attempt)
    · intro dialogue fault _ h
      cases h
    · intro dialogue lastError hattempt
      cases lastError with
      | none =>
        intro _
        have h := (hattempt rfl).append [] []
        exact Or.inr h
      | some failure =>
        cases remaining with
        | zero =>
          intro h
          cases h
        | succ remaining =>
          refine Coroutine.Ensures.imp ?_ (ih (attempt + 1) (some failure))
          intro more result hmore hresult
          rcases hmore hresult with hzero | hsucceeds
          · cases hzero
          · right
            have h := hsucceeds.append dialogue []
            rwa [append_nil] at h

theorem retryOne_ensures (hcount : 1 ≤ compensationMaxRetries stepDef) :
    Async.Ensures (fun dialogue result => result = .ok () →
        Succeeds stepDef dialogue) (retryOne env stepDef) := by
  rw [retryOne_eq]
  apply Async.Ensures.bind (retryAttempts_ensures _ _ _ 0 none)
  · intro dialogue fault _ h
    cases h
  · intro dialogue lastError hattempts
    cases lastError with
    | none =>
      intro _
      rcases hattempts rfl with hzero | hsucceeds
      · omega
      · have h := hsucceeds.append [] []
        rwa [nil_append] at h
    | some error =>
      have hgiveUp : Async.Ensures (fun _ result => result ≠ .ok ())
          (giveUp env stepDef error) := by
        apply Async.Ensures.bind (Coroutine.ensures_of_forall (fun _ _ => trivial) _)
        · intro _ fault _ h
          cases h
        · intro _ value _
          apply Async.Ensures.bind (Coroutine.ensures_of_forall (fun _ _ => trivial) _)
          · intro _ fault _ h
            cases h
          · intro _ value _ h
            cases h
      refine Coroutine.Ensures.imp ?_ hgiveUp
      intro more result hne hok
      exact absurd hok hne

section Policies

variable [DecidableEq ι] {saga : SagaDefinition ι}

def StepSucceeds (saga : SagaDefinition ι) (step : ι)
    (dialogue : List (CompensationQuery ι E × CompensationReply V E)) :
    Prop :=
  ∀ stepDef, saga.compensable? step = some stepDef → Succeeds stepDef dialogue

theorem strictSequential_ensures (completed : List ι) :
    Async.Ensures (fun dialogue result => result = .ok () →
        ∀ step ∈ completed.reverse, StepSucceeds saga step dialogue)
      (strictSequential env saga completed) := by
  apply Async.Ensures.forEach
  · intro step before dialogue after hfound stepDef hstep
    exact (hfound stepDef hstep).append before after
  · intro step _
    cases hstep : saga.compensable? step with
    | none =>
      intro _ stepDef hsome
      rw [hstep] at hsome
      cases hsome
    | some stepDef =>
      refine Coroutine.Ensures.imp ?_ (invokeOne_ensures 0 false)
      intro dialogue result hsucceeds hok other hother
      rw [hstep] at hother
      rw [← Option.some.inj hother]
      exact hsucceeds hok

theorem retryWithBackoff_ensures {completed : List ι}
    (hcount : ∀ step ∈ completed, ∀ stepDef, saga.compensable? step = some stepDef →
      1 ≤ compensationMaxRetries stepDef) :
    Async.Ensures (fun dialogue result => result = .ok () →
        ∀ step ∈ completed.reverse, StepSucceeds saga step dialogue)
      (retryWithBackoff env saga completed) := by
  apply Async.Ensures.forEach
  · intro step before dialogue after hfound stepDef hstep
    exact (hfound stepDef hstep).append before after
  · intro step hmem
    cases hstep : saga.compensable? step with
    | none =>
      intro _ stepDef hsome
      rw [hstep] at hsome
      cases hsome
    | some stepDef =>
      have hmin := hcount step (mem_reverse.mp hmem) stepDef hstep
      refine Coroutine.Ensures.imp ?_ (retryOne_ensures hmin)
      intro dialogue result hsucceeds hok other hother
      rw [hstep] at hother
      rw [← Option.some.inj hother]
      exact hsucceeds hok

def LayerGathered (saga : SagaDefinition ι) (completed layer : List ι)
    (dialogue : List (CompensationQuery ι E × CompensationReply V E)) :
    Prop :=
  layerSteps saga completed layer ≠ [] → ∃ value,
    (.gather (layerSteps saga completed layer) false, .ok value) ∈ dialogue

theorem groupedParallel_ensures (completed : List ι) (layers : List (List ι)) :
    Async.Ensures (fun dialogue (result : Except (Fault E) Unit) =>
        result = .ok () → ∀ layer ∈ layers.reverse, LayerGathered saga completed layer dialogue)
      (groupedParallel saga completed layers : Compensating ι V E Unit) := by
  apply Async.Ensures.forEach
  · intro layer before dialogue after hfound hsteps
    obtain ⟨value, hmem⟩ := hfound hsteps
    exact ⟨value, mem_append_left _ (mem_append_right _ hmem)⟩
  · intro layer _
    cases hsteps : layerSteps saga completed layer with
    | nil =>
      intro _ hne
      exact absurd hsteps hne
    | cons first rest =>
      intro reply
      cases reply with
      | ok value =>
        intro _ _
        rw [hsteps]
        exact ⟨value, mem_cons_self⟩
      | error fault =>
        intro h
        cases h

theorem mem_layerSteps {completed layer : List ι} {stepDef : StepDefinition ι} :
    stepDef ∈ layerSteps saga completed layer ↔ ∃ step ∈ layer, step ∈ completed ∧
        saga.compensable? step = some stepDef := by
  unfold layerSteps
  simp only [mem_filterMap, mem_filter, decide_eq_true_eq]
  constructor
  · intro h
    obtain ⟨step, ⟨hlayer, hcompleted⟩, hstep⟩ := h
    exact ⟨step, hlayer, hcompleted, hstep⟩
  · intro h
    obtain ⟨step, hlayer, hcompleted, hstep⟩ := h
    exact ⟨step, ⟨hlayer, hcompleted⟩, hstep⟩

end Policies

theorem gatherReply_eq_ok {steps : List (StepDefinition ι)} {interrupted : Bool} {choice : ℕ}
    {results : List (Option (Except (Fault E) Unit))} {value : Option V}
    (h : Environment.gatherReply (.gather steps false) interrupted choice
      results = some (.ok value)) :
    ∀ result ∈ results, result = some (.ok ()) := by
  unfold Environment.gatherReply at h
  dsimp only at h
  cases hfaults : (results.filterMap Environment.taskFault).rotate choice with
  | cons fault rest =>
    rw [hfaults] at h
    cases h
  | nil =>
    rw [hfaults] at h
    have hnone : results.filterMap Environment.taskFault = [] :=
      rotate_eq_nil_iff.mp hfaults
    by_cases hall : results.all Option.isSome = true
    · intro result hmem
      have hsome := all_eq_true.mp hall result hmem
      have hfault := filterMap_eq_nil_iff.mp hnone result hmem
      cases result with
      | none => cases hsome
      | some ended =>
        cases ended with
        | ok value => rfl
        | error fault => cases hfault
    · dsimp only at h
      rw [if_neg hall] at h
      cases h

end Compensating

section Runs

open Compensating

theorem recovered_of_collected {env : Environment ι V E} {steps : List (StepDefinition ι)}
    {value : Option V} {trace : List (CompensationSignal ι V E)}
    (hcollected : env.compensationRules.Collected trace (.gather steps false) (.ok value))
    {stepDef : StepDefinition ι} (hmem : stepDef ∈ steps) :
    Recovered stepDef.id trace := by
  obtain ⟨interrupted, choice, results, collected, hreported, hcollect,
    hreply⟩ := hcollected _ rfl
  have hok : .ok value = collected := by
    rcases hreply with hsame | hinterrupt
    · exact hsame
    · cases hinterrupt
  have hgather : Environment.gatherReply (.gather steps false) interrupted
      choice results = some (.ok value) := by
    rw [hok]
    exact hcollect
  have hresults := gatherReply_eq_ok hgather
  have hall : ∀ code ∈ steps.map (fun stepDef => do
      perform (.scheduled stepDef.id)
      invokeOne env stepDef 0 true false : StepDefinition ι → Compensating ι V E Unit),
      Spoken trace code (.done (.ok ())) := by
    intro code hcode
    obtain ⟨index, hget⟩ := mem_iff_getElem?.mp hcode
    obtain ⟨hlt, hcodeAt⟩ := List.getElem?_eq_some_iff.mp hget
    have hresult := hreported.get hlt (hreported.length_eq ▸ hlt)
    rw [← hcodeAt]
    apply hresult
    exact hresults _ (get_mem _ _)
  obtain ⟨dialogue, hleads, hshown⟩ :=
    hall _ (mem_map_of_mem hmem)
  have hensures : Async.Ensures (fun dialogue result => result = .ok () →
      Succeeds stepDef dialogue) (do
        perform (.scheduled stepDef.id)
        invokeOne env stepDef 0 true false : Compensating ι V E Unit) := by
    apply Async.Ensures.bind (Coroutine.ensures_of_forall (fun _ _ => trivial) _)
    · intro _ fault _ h
      cases h
    · intro before _ _
      refine Coroutine.Ensures.imp ?_ (invokeOne_ensures 0 false)
      intro more result hsucceeds hresult
      have h := (hsucceeds hresult).append before []
      rwa [append_nil] at h
  obtain ⟨attempt, found, hmemDialogue⟩ := hensures.result hleads rfl
  exact ⟨stepDef, attempt, found, hshown _ _ hmemDialogue, rfl⟩

variable [DecidableEq ι] {env : Environment ι V E} {saga : SagaDefinition ι}

theorem recovered_of_succeeds {step : ι} {stepDef : StepDefinition ι}
    {dialogue : List (CompensationQuery ι E × CompensationReply V E)}
    {trace : List (CompensationSignal ι V E)}
    (hstep : saga.compensable? step = some stepDef)
    (hsucceeds : Succeeds stepDef dialogue)
    (hshown : ∀ query reply, (query, reply) ∈ dialogue →
      .answered query reply ∈ trace) : Recovered step trace := by
  obtain ⟨attempt, value, hmem⟩ := hsucceeds
  exact ⟨stepDef, attempt, value, hshown _ _ hmem, SagaDefinition.id_of_compensable? hstep⟩

/-- With a positive retry count for every step, a normal return means that
every compensation has succeeded; cancellations do not change that. -/
theorem recovered_of_returned {policy : CompensationPolicy}
    (hpolicy : policy = .strictSequential ∨ policy = .retryWithBackoff ∨
      policy = .groupedParallel)
    {completed : List ι} {layers : List (List ι)}
    (hcover : ∀ step ∈ completed, ∃ layer ∈ layers, step ∈ layer)
    (hcount : policy = .retryWithBackoff → ∀ step ∈ completed, ∀ stepDef,
      saga.compensable? step = some stepDef →
      1 ≤ compensationMaxRetries stepDef)
    {schedule : List CrewPick}
    (hdone : (compensation env saga policy completed layers
      schedule).state.main = .done (.ok ())) :
    ∀ step ∈ completed, saga.Compensable step → Recovered step
        (compensation env saga policy completed layers schedule).trace := by
  intro step hmem hcompensable
  obtain ⟨stepDef, hstep⟩ := Option.isSome_iff_exists.mp hcompensable
  have hnonempty : completed.isEmpty = false := by
    cases completed with
    | nil => cases hmem
    | cons first rest => rfl
  unfold compensation at hdone ⊢
  unfold compensate at hdone ⊢
  rw [hnonempty, if_neg Bool.false_ne_true] at hdone ⊢
  rcases hpolicy with hstrict | hretry | hgrouped
  · rw [hstrict] at hdone ⊢
    obtain ⟨dialogue, hpost, hshown⟩ :=
      ensures_execute (strictSequential_ensures completed) hdone
    exact recovered_of_succeeds hstep (hpost rfl step (mem_reverse.mpr hmem) stepDef hstep)
      fun query reply h => (hshown query reply h).1
  · rw [hretry] at hdone ⊢
    obtain ⟨dialogue, hpost, hshown⟩ :=
      ensures_execute (retryWithBackoff_ensures (hcount hretry)) hdone
    exact recovered_of_succeeds hstep (hpost rfl step (mem_reverse.mpr hmem) stepDef hstep)
      fun query reply h => (hshown query reply h).1
  · rw [hgrouped] at hdone ⊢
    obtain ⟨dialogue, hpost, hshown⟩ :=
      ensures_execute (groupedParallel_ensures completed layers) hdone
    obtain ⟨layer, hlayer, hstepLayer⟩ := hcover step hmem
    have hsteps : stepDef ∈ layerSteps saga completed layer :=
      mem_layerSteps.mpr ⟨step, hstepLayer, hmem, hstep⟩
    obtain ⟨value, hgather⟩ :=
      hpost rfl layer (mem_reverse.mpr hlayer) (ne_nil_of_mem hsteps)
    have hrecovered := recovered_of_collected (hshown _ _ hgather).2 hsteps
    rwa [SagaDefinition.id_of_compensable? hstep] at hrecovered

end Runs

end PyFly.Saga
