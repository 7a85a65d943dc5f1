import PyFly.CompensationTally

/-!
# The circuit breaker of the compensator

Whatever its awaits are answered, `_circuit_breaker` goes on until three
invocations in a row have failed, and does not raise.
-/

namespace PyFly.Saga

open Library Transactional Compensating List

variable {ι V E : Type}

/-- The awaits of a run of the compensator with their replies. -/
abbrev Dialogue (ι V E : Type) :=
  List (CompensationQuery ι E × CompensationReply V E)

def Uncancelled (dialogue : Dialogue ι V E) : Prop :=
  ∀ exchange ∈ dialogue, exchange.2 ≠ .error .cancelled

/-- A dialogue of `_invoke_one`, which returns or raises an exception. -/
def Invocation (env : Environment ι V E) (stepDef : StepDefinition ι)
    (failed : Bool) (dialogue : Dialogue ι V E) : Prop :=
  ∃ result, Coroutine.Leads (invokeOne env stepDef 0 true false) dialogue
    (.done result) ∧ match result with
      | .ok _ => failed = false
      | .error (.exception _) => failed = true
      | .error .cancelled => False

inductive Invocations (env : Environment ι V E) :
    List (StepDefinition ι × Bool) → Dialogue ι V E → Prop
  | nil : Invocations env [] []
  | cons {stepDef : StepDefinition ι} {failed : Bool}
      {tried : List (StepDefinition ι × Bool)} {first rest : Dialogue ι V E}
      (hfirst : Invocation env stepDef failed first)
      (hrest : Invocations env tried rest) :
      Invocations env ((stepDef, failed) :: tried) (first ++ rest)

/-- The last invocations have failed, as many as open the circuit. -/
def EndsOpen (failures : List Bool) : Prop :=
  List.replicate circuitBreakerThreshold true <:+ failures

structure BreaksCircuit (count : ℕ) (steps : List (StepDefinition ι))
    (tried : List (StepDefinition ι × Bool)) : Prop where
  inOrder : tried.map Prod.fst <+: steps
  shortest : ∀ front, front <+: tried.map Prod.snd →
    EndsOpen (List.replicate count true ++ front) → front = tried.map Prod.snd
  complete : EndsOpen (List.replicate count true ++ tried.map Prod.snd) ∨
    tried.map Prod.fst = steps

variable {env : Environment ι V E} {stepDef : StepDefinition ι} {count : ℕ}

theorem uncancelled_perform (query : CompensationQuery ι E) :
    Async.Ensures (fun dialogue result => Uncancelled dialogue →
      result ≠ .error .cancelled) (perform query : Compensating ι V E Unit) := by
  intro reply
  cases reply with
  | ok value => exact fun _ => by simp
  | error fault =>
    intro hcalm hcancelled
    obtain rfl := Except.error.inj hcancelled
    exact hcalm _ mem_cons_self rfl

theorem uncancelled_bind {α β : Type} {code : Compensating ι V E α}
    {next : Except (Fault E) α → Compensating ι V E β}
    (hcode : Async.Ensures (fun dialogue result => Uncancelled dialogue →
      result ≠ .error .cancelled) code)
    (hnext : ∀ result, result ≠ .error .cancelled →
      Async.Ensures (fun dialogue result => Uncancelled dialogue →
        result ≠ .error .cancelled) (next result)) :
    Async.Ensures (fun dialogue result => Uncancelled dialogue →
      result ≠ .error .cancelled) (Coroutine.bind code next) := by
  apply Coroutine.Ensures.bind hcode
  intro dialogue result hresult
  by_cases hcalm : Uncancelled dialogue
  · refine Coroutine.Ensures.imp ?_ (hnext result (hresult hcalm))
    exact fun more after hmore hall => hmore fun exchange hmem =>
      hall exchange (mem_append_right _ hmem)
  · refine Coroutine.ensures_of_forall (fun more after hall => ?_) _
    exact absurd (fun exchange hmem =>
      hall exchange (mem_append_left _ hmem)) hcalm

theorem uncancelled_invokeOne : Async.Ensures (fun dialogue result => Uncancelled dialogue →
      result ≠ .error .cancelled) (invokeOne env stepDef 0 true false) := by
  have hpure : Async.Ensures (fun dialogue result => Uncancelled dialogue →
      result ≠ .error .cancelled) (pure () : Compensating ι V E Unit) :=
    fun _ => by simp
  have hemit : ∀ error, Async.Ensures (fun dialogue result =>
      Uncancelled dialogue → result ≠ .error .cancelled)
        (emitCompensated env stepDef.id 0 error) := by
    intro error
    unfold emitCompensated
    cases env.events with
    | none => exact hpure
    | some port => exact uncancelled_perform _
  refine uncancelled_bind (uncancelled_bind (uncancelled_perform _) ?_) ?_
  · rintro (_ | _) hresult
    · exact fun _ => hresult
    · exact hemit none
  · rintro ((error | _) | _) hresult
    · refine uncancelled_bind (hemit (some error)) ?_
      rintro (_ | _) hemitted
      · exact fun _ => hemitted
      · refine uncancelled_bind ?_ fun handled hhandled => ?_
        · show Async.Ensures _ (handleError env stepDef.id error)
          unfold handleError
          cases env.errorHandler with
          | none => exact hpure
          | some handle => exact uncancelled_perform _
        · rcases handled with _ | _
          · exact fun _ => hhandled
          · exact fun _ => by simp
    · exact absurd rfl hresult
    · exact hpure

theorem not_endsOpen_replicate (h : count < circuitBreakerThreshold) :
    ¬ EndsOpen (List.replicate count true) := by
  intro hopen
  have hlength := hopen.length_le
  rw [length_replicate, length_replicate] at hlength
  omega

/-- A success resets the count. -/
theorem endsOpen_success (before after : List Bool) :
    EndsOpen (before ++ false :: after) ↔ EndsOpen after := by
  have hne : ∀ failures : List Bool, false ∈ failures →
      List.replicate circuitBreakerThreshold true ≠ failures := by
    rintro failures hmem rfl
    cases eq_of_mem_replicate hmem
  unfold EndsOpen
  induction before with
  | nil =>
    rw [nil_append, suffix_cons_iff, or_iff_right (hne _ mem_cons_self)]
  | cons failure before ih =>
    rw [cons_append, suffix_cons_iff, or_iff_right (hne _ (by simp))]
    exact ih

theorem BreaksCircuit.cons {next : ℕ} {failed : Bool}
    {steps : List (StepDefinition ι)} {tried : List (StepDefinition ι × Bool)}
    (hcount : count < circuitBreakerThreshold)
    (hnext : ∀ failures, EndsOpen (List.replicate count true ++
      failed :: failures) ↔ EndsOpen (List.replicate next true ++ failures))
    (h : BreaksCircuit next steps tried) :
    BreaksCircuit count (stepDef :: steps) ((stepDef, failed) :: tried) := by
  refine ⟨cons_prefix_cons.mpr ⟨rfl, h.inOrder⟩, ?_, ?_⟩
  · intro front hfront hopen
    cases front with
    | nil =>
      rw [append_nil] at hopen
      exact absurd hopen (not_endsOpen_replicate hcount)
    | cons head front =>
      obtain ⟨rfl, hrest⟩ := cons_prefix_cons.mp hfront
      rw [h.shortest front hrest ((hnext front).mp hopen)]
      rfl
  · rcases h.complete with hopen | hall
    · exact Or.inl ((hnext _).mpr hopen)
    · exact Or.inr (congrArg (List.cons stepDef) hall)

variable [DecidableEq ι] {saga : SagaDefinition ι}

theorem circuitBreakerLoop_some {step : ι} (rest : List ι)
    (hcount : count < circuitBreakerThreshold)
    (hstep : saga.compensable? step = some stepDef) :
    (circuitBreakerLoop env saga count (step :: rest) : Compensating ι V E Unit) =
      Coroutine.bind (invokeOne env stepDef 0 true false) fun
        | .ok _ => circuitBreakerLoop env saga 0 rest
        | .error (.exception _) => circuitBreakerLoop env saga (count + 1) rest
        | .error .cancelled => Async.throw .cancelled := by
  rw [circuitBreakerLoop, if_neg (Nat.not_le.mpr hcount), hstep]
  refine (Coroutine.bind_assoc (Coroutine.bind _ _) _ _).trans
    ((Coroutine.bind_assoc _ _ _).trans (congrArg (Coroutine.bind _) ?_))
  funext result
  rcases result with (_ | _) | _ <;> rfl

def LoopBreaks (env : Environment ι V E) (saga : SagaDefinition ι) (count : ℕ)
    (steps : List ι) (dialogue : Dialogue ι V E)
    (result : Except (Fault E) Unit) : Prop :=
  Uncancelled dialogue → result = .ok () ∧ ∃ tried, Invocations env tried dialogue ∧
      BreaksCircuit count (steps.filterMap saga.compensable?) tried

theorem circuitBreakerLoop_breaks (steps : List ι) (hcount : count ≤ circuitBreakerThreshold) :
    Async.Ensures (LoopBreaks env saga count steps)
      (circuitBreakerLoop env saga count steps) := by
  induction steps generalizing count with
  | nil =>
    rw [circuitBreakerLoop]
    exact fun _ => ⟨rfl, [], .nil, nil_prefix, fun _ hfront _ =>
      prefix_nil.mp hfront, Or.inr rfl⟩
  | cons step rest ih =>
    rcases hcount.lt_or_eq with hlt | rfl
    · cases hstep : saga.compensable? step with
      | none =>
        unfold LoopBreaks
        rw [circuitBreakerLoop, if_neg (Nat.not_le.mpr hlt), hstep, filterMap_cons_none hstep]
        exact ih hcount
      | some stepDef =>
        rw [circuitBreakerLoop_some rest hlt hstep]
        refine Coroutine.Ensures.bind (Coroutine.Ensures.and
          (Coroutine.ensures_leads _) uncancelled_invokeOne) ?_
        rintro first result ⟨hleads, huncancelled⟩
        have hnext : ∀ {next : ℕ} (failed : Bool),
            next ≤ circuitBreakerThreshold → Invocation env stepDef failed first →
            (∀ failures, EndsOpen (List.replicate count true ++ failed :: failures) ↔
                EndsOpen (List.replicate next true ++ failures)) →
            Async.Ensures (fun more =>
              LoopBreaks env saga count (step :: rest) (first ++ more))
                (circuitBreakerLoop env saga next rest) := by
          intro next failed hle hfirst hopen
          refine Coroutine.Ensures.imp ?_ (ih hle)
          intro more result hmore hcalm
          obtain ⟨hresult, tried, htried, hbreaks⟩ := hmore fun exchange hmem =>
            hcalm exchange (mem_append_right _ hmem)
          rw [filterMap_cons_some hstep]
          exact ⟨hresult, _, .cons hfirst htried, hbreaks.cons hlt hopen⟩
        rcases result with (error | _) | _
        · refine hnext true hlt ⟨_, hleads, rfl⟩ fun failures => ?_
          rw [replicate_succ', append_assoc]
          rfl
        · refine fun hcalm => absurd rfl (huncancelled fun exchange hmem => ?_)
          exact hcalm exchange (mem_append_left _ hmem)
        · exact hnext false (Nat.zero_le _) ⟨_, hleads, rfl⟩ (endsOpen_success _)
    · rw [circuitBreakerLoop, if_pos le_rfl]
      refine fun _ => ⟨rfl, [], .nil, nil_prefix, fun _ hfront _ =>
        prefix_nil.mp hfront, Or.inl ?_⟩
      rw [map_nil, append_nil]
      exact suffix_refl _

end PyFly.Saga
