import PyFly.SagaCompositor
import PyFly.Library.Rounds

/-!
# Sagas handed to compensation, and data flows

When a composition fails, the compositor hands the list of the sagas whose
results it has taken to the compensation manager.  A failing saga whose result
was taken is in that list, and a saga of the failing layer which comes after it
is not.  A data flow is delivered exactly when its source lies in an earlier
layer.
-/

namespace PyFly.Saga

open Library Transactional List

namespace SagaCompositor

variable {σ ι W E : Type}

section Runs

variable [LinearOrder σ] [DecidableEq ι] [ToString σ]
variable {asDict : W → Option (Dict σ (Option W))}
variable {errors : CompositorErrors σ E} {composition : SagaComposition σ ι}
variable {replies : σ → SagaReply ι W E} {initialInput : Option W}

def Progress.called (progress : Progress σ ι W E) : List σ :=
  progress.calls.map ResolveCall.name

inductive Ran (composition : SagaComposition σ ι)
    (errors : CompositorErrors σ E) (replies : σ → SagaReply ι W E)
    (layers : List (List σ)) (progress next : Progress σ ι W E) :
    Option (Fault E) → Prop
  | through (hall : ∀ name ∈ layers.flatten, Succeeds replies name)
      (hcompleted : next.completed = progress.completed ++ layers.flatten)
      (hcalled : Progress.called next = Progress.called progress ++ layers.flatten) :
      Ran composition errors replies layers progress next none
  | stopped (earlier : List (List σ)) (layer : List σ) (rest : List (List σ)) (fault : Fault E)
      (hsplit : layers = earlier ++ layer :: rest)
      (hearlier : ∀ name ∈ earlier.flatten, Succeeds replies name)
      (hlayer : Processed composition errors replies layer
        (progress.completed ++ earlier.flatten) next.completed (some fault))
      (hcalled : Progress.called next =
        Progress.called progress ++ (earlier.flatten ++ layer)) :
      Ran composition errors replies layers progress next (some fault)

omit [ToString σ] in
theorem called_layer {layer : List σ} (hlayer : ∀ name ∈ layer, name ∈ composition.entries.keys)
    (results : Dict σ (SagaResult ι (Option W) E)) :
    (layer.filterMap (callFor asDict composition initialInput results)).map
        ResolveCall.name = layer := by
  induction layer with
  | nil => rfl
  | cons name rest ih =>
    obtain ⟨entry, hentry⟩ :=
      Dict.mem_keys_iff.mp (hlayer name mem_cons_self)
    have hcall : callFor asDict composition initialInput results name =
        some ⟨name, results, DataFlowManager.resolveInput asDict entry
          results initialInput⟩ := by
      unfold callFor
      rw [hentry]
      rfl
    rw [filterMap_cons_some hcall, map_cons,
      ih fun other hmem => hlayer other (mem_cons_of_mem name hmem)]

omit [LinearOrder σ] [DecidableEq ι] in
theorem Ran.cons {layer : List σ} {rest : List (List σ)}
    {progress next last : Progress σ ι W E} {fault : Option (Fault E)}
    (hlayer : ∀ name ∈ layer, Succeeds replies name)
    (hcompleted : next.completed = progress.completed ++ layer)
    (hcalled : Progress.called next = Progress.called progress ++ layer)
    (h : Ran composition errors replies rest next last fault) :
    Ran composition errors replies (layer :: rest) progress last fault := by
  have hcons : ∀ earlier : List (List σ), (∀ name ∈ earlier.flatten, Succeeds replies name) →
        ∀ name ∈ (layer :: earlier).flatten, Succeeds replies name := by
    intro earlier hearlier name hmem
    rw [flatten_cons] at hmem
    rcases mem_append.mp hmem with hfirst | hlater
    · exact hlayer name hfirst
    · exact hearlier name hlater
  cases h with
  | through hall hdone hnames =>
    refine .through (hcons rest hall) ?_ ?_
    · rw [hdone, hcompleted, append_assoc]
      rfl
    · rw [hnames, hcalled, append_assoc]
      rfl
  | stopped earlier other later fault hsplit hearlier hother hnames =>
    refine .stopped (layer :: earlier) other later fault ?_ (hcons earlier hearlier) ?_ ?_
    · rw [hsplit]
      rfl
    · rw [hcompleted, append_assoc] at hother
      exact hother
    · rw [hnames, hcalled, flatten_cons]
      simp only [append_assoc]

theorem runLayers_ran {layers : List (List σ)}
    (hlayers : ∀ name ∈ layers.flatten, name ∈ composition.entries.keys)
    (progress : Progress σ ι W E) :
    Ran composition errors replies layers progress
      (runLayers asDict errors composition replies initialInput layers progress).1
      (runLayers asDict errors composition replies initialInput layers progress).2 := by
  induction layers generalizing progress with
  | nil =>
    refine .through ?_ ?_ ?_
    · intro name hmem
      cases hmem
    · exact (append_nil _).symm
    · exact (append_nil _).symm
  | cons layer rest ih =>
    have hlayer : ∀ name ∈ layer, name ∈ composition.entries.keys :=
      fun name hmem => hlayers name (mem_append_left _ hmem)
    have hrest : ∀ name ∈ rest.flatten, name ∈ composition.entries.keys :=
      fun name hmem => hlayers name (mem_append_right layer hmem)
    obtain ⟨_, hcompleted, hcalls⟩ := @resolve_layer _ ι W E _ _ asDict
      composition initialInput layer progress
    have hprocessed := @processResults_spec _ ι W E _ _ errors composition replies layer hlayer
      (layer.foldl (resolveSaga asDict composition initialInput) progress)
    dsimp only at hprocessed
    rw [hcompleted, hcalls] at hprocessed
    rcases hresult : processResults errors composition
      (layer.zip (layer.map (sagaReply errors composition replies)))
      (layer.foldl (resolveSaga asDict composition initialInput) progress) with ⟨next, fault⟩
    rw [hresult] at hprocessed
    obtain ⟨hend, hnextCalls⟩ := hprocessed
    unfold runLayers
    dsimp only at hend hnextCalls ⊢
    rw [hresult]
    have hcalled : Progress.called next = Progress.called progress ++ layer := by
      unfold Progress.called
      rw [hnextCalls, map_append, called_layer hlayer]
    cases fault with
    | some fault =>
      refine .stopped [] layer rest fault rfl ?_ ?_ ?_
      · intro name hmem
        cases hmem
      · rw [flatten_nil, append_nil]
        exact hend
      · rw [hcalled]
        rfl
    | none =>
      have hthrough : next.completed = progress.completed ++ layer ∧
          ∀ name ∈ layer, Succeeds replies name := by
        generalize hnone : (none : Option (Fault E)) = ended at hend
        generalize hlist : next.completed = completed at hend ⊢
        cases hend with
        | through hall => exact ⟨rfl, hall⟩
        | raised => cases hnone
        | unsuccessful => cases hnone
      exact (ih hrest next).cons hthrough.2 hthrough.1 hcalled

end Runs

/-! ## The sagas handed to compensation -/

theorem not_succeeds_of_raised {replies : σ → SagaReply ι W E} {name : σ}
    {fault : Fault E} (h : replies name = .error fault) :
    ¬ Succeeds replies name := by
  intro hsucceeds
  obtain ⟨result, hresult, _⟩ := hsucceeds
  rw [h] at hresult
  cases hresult

theorem not_succeeds_of_unsuccessful {replies : σ → SagaReply ι W E}
    {name : σ} {result : SagaResult ι (Option W) E}
    (h : replies name = .ok result) (hfailed : result.success = false) :
    ¬ Succeeds replies name := by
  intro hsucceeds
  obtain ⟨other, hother, hsuccess⟩ := hsucceeds
  rw [h] at hother
  rw [Except.ok.inj hother, hsuccess] at hfailed
  cases hfailed

section HandedOver

variable [LinearOrder σ]

def FirstFailure (composition : SagaComposition σ ι)
    (replies : σ → SagaReply ι W E) (before : List σ) (failed : σ)
    (after : List σ) : Prop :=
  ∃ earlier rest, computeLayers composition.deps =
      .ok (earlier ++ (before ++ failed :: after) :: rest) ∧
    (∀ name ∈ earlier.flatten ++ before, Succeeds replies name) ∧
    ¬ Succeeds replies failed

/-- The sagas handed to compensation are those which were executed and
returned a result with `success=True`. -/
def HandsOverSucceeded (replies : σ → SagaReply ι W E)
    (progress : Progress σ ι W E) (handed : List σ) : Prop :=
  ∀ name, name ∈ handed ↔ name ∈ Progress.called progress ∧ Succeeds replies name

def FailsLast (composition : SagaComposition σ ι) (replies : σ → SagaReply ι W E) : Prop :=
  ∃ before failed after, FirstFailure composition replies before failed after ∧
      (∃ error, replies failed = .error (.exception error)) ∧
      ∀ name ∈ after, ¬ Succeeds replies name

theorem FirstFailure.unique {composition : SagaComposition σ ι}
    {replies : σ → SagaReply ι W E} {before after before' after' : List σ}
    {failed failed' : σ}
    (h : FirstFailure composition replies before failed after)
    (h' : FirstFailure composition replies before' failed' after') :
    before = before' ∧ failed = failed' ∧ after = after' := by
  obtain ⟨earlier, rest, hlayers, hsucceeds, hfailed⟩ := h
  obtain ⟨earlier', rest', hlayers', hsucceeds', hfailed'⟩ := h'
  have hsame := Except.ok.inj (hlayers.symm.trans hlayers')
  have hfirst : ∀ {layers : List (List σ)} {start : List σ},
      (∀ name ∈ layers.flatten ++ start, Succeeds replies name) →
      ∀ layer ∈ layers, ∀ name ∈ layer, Succeeds replies name := by
    intro layers start hall layer hlayer name hname
    exact hall name (mem_append_left _ (mem_flatten.mpr ⟨layer, hlayer, hname⟩))
  have hbroken : ∀ {start : List σ} {lost : σ} {last : List σ}, ¬ Succeeds replies lost →
      ¬ ∀ name ∈ start ++ lost :: last, Succeeds replies name := by
    intro start lost last hlost hall
    exact hlost (hall lost (by simp))
  obtain ⟨_, hlayer, _⟩ := first_split_unique hsame (hfirst hsucceeds)
    (hbroken hfailed) (hfirst hsucceeds') (hbroken hfailed')
  exact first_split_unique hlayer
    (fun name hmem => hsucceeds name (mem_append_right _ hmem)) hfailed
    (fun name hmem => hsucceeds' name (mem_append_right _ hmem))
    hfailed'

variable [DecidableEq ι] [ToString σ]
variable {asDict : W → Option (Dict σ (Option W))}
variable {errors : CompositorErrors σ E} {composition : SagaComposition σ ι}
variable {replies : σ → SagaReply ι W E} {initialInput : Option W}

theorem forward_ran {correlationId : String} {run : Progress σ ι W E × Option (Fault E)}
    (hrun : forward asDict errors composition replies initialInput correlationId = .ok run) :
    ∃ layers, computeLayers composition.deps = .ok layers ∧
      Ran composition errors replies layers
        (initial composition correlationId) run.1 run.2 := by
  unfold forward at hrun
  cases hlayers : computeLayers composition.deps with
  | error error =>
    rw [hlayers] at hrun
    cases hrun
  | ok layers =>
    rw [hlayers] at hrun
    have hran := @runLayers_ran σ ι W E _ _ _ asDict errors composition
      replies initialInput layers
      (fun name hmem => (SagaComposition.mem_layers hlayers).mp hmem)
      (initial composition correlationId)
    have hsame : runLayers asDict errors composition replies initialInput
        layers (initial composition correlationId) = run :=
      Except.ok.inj hrun
    rw [hsame] at hran
    exact ⟨layers, rfl, hran⟩

theorem failure_of_forward {correlationId : String} {run : Progress σ ι W E × Option (Fault E)}
    (hrun : forward asDict errors composition replies initialInput correlationId = .ok run)
    {ctx : CompositionContext σ ι W E} {handed : List σ}
    (hfailure : failure? run = some (ctx, handed)) :
    ∃ earlier before failed after rest, computeLayers composition.deps =
        .ok (earlier ++ (before ++ failed :: after) :: rest) ∧
      (∀ name ∈ earlier.flatten ++ before, Succeeds replies name) ∧
      Progress.called run.1 = earlier.flatten ++ (before ++ failed :: after) ∧
      (((∃ error, replies failed = .error (.exception error)) ∧
          handed = earlier.flatten ++ before) ∨
        ((∃ result, replies failed = .ok result ∧ result.success = false) ∧
          handed = earlier.flatten ++ (before ++ [failed]))) := by
  obtain ⟨layers, hlayers, hran⟩ := forward_ran hrun
  obtain ⟨progress, fault⟩ := run
  dsimp only at hran ⊢
  cases hran with
  | through hall hcompleted hcalled => cases hfailure
  | stopped earlier layer rest fault hsplit hearlier hlayer hcalled =>
    cases fault with
    | cancelled => cases hfailure
    | exception error =>
      have hhanded : progress.completed = handed :=
        congrArg Prod.snd (Option.some.inj hfailure)
      have hall : ∀ before : List σ, (∀ name ∈ before, Succeeds replies name) →
          ∀ name ∈ earlier.flatten ++ before, Succeeds replies name := by
        intro before hbefore name hmem
        rcases mem_append.mp hmem with hfirst | hlater
        · exact hearlier name hfirst
        · exact hbefore name hlater
      generalize hlist : progress.completed = completed at hlayer
      generalize hfault : (some (.exception error) : Option (Fault E)) = ended at hlayer
      cases hlayer with
      | through => cases hfault
      | raised before failed after other hlayerSplit hbefore hfailed =>
        have hsame := Option.some.inj hfault
        refine ⟨earlier, before, failed, after, rest, ?_,
          hall before hbefore, ?_, Or.inl ⟨⟨error, ?_⟩, ?_⟩⟩
        · rw [hlayers, hsplit, hlayerSplit]
        · rw [hcalled, hlayerSplit]
          rfl
        · rw [hfailed, ← hsame]
        · rw [← hhanded, hlist]
          rfl
      | unsuccessful before failed after result hlayerSplit hbefore hfailed hunsuccessful =>
          refine ⟨earlier, before, failed, after, rest, ?_, hall before hbefore, ?_,
            Or.inr ⟨⟨result, hfailed, hunsuccessful⟩, ?_⟩⟩
          · rw [hlayers, hsplit, hlayerSplit]
          · rw [hcalled, hlayerSplit]
            rfl
          · rw [← hhanded, hlist]
            rfl

/-- Compensation is handed the sagas which have succeeded exactly when the
first saga which fails raises and no saga after it in its layer succeeds. -/
theorem hands_over_succeeded_iff {correlationId : String}
    {run : Progress σ ι W E × Option (Fault E)}
    (hrun : forward asDict errors composition replies initialInput correlationId = .ok run)
    {ctx : CompositionContext σ ι W E} {handed : List σ}
    (hfailure : failure? run = some (ctx, handed)) :
    HandsOverSucceeded replies run.1 handed ↔ FailsLast composition replies := by
  obtain ⟨earlier, before, failed, after, rest, hlayers, hsucceeds, hcalled,
    hend⟩ := failure_of_forward hrun hfailure
  have hnodup := SagaComposition.layers_nodup hlayers
  rw [flatten_append, flatten_cons] at hnodup
  constructor
  · intro hexact
    rcases hend with ⟨⟨error, hraised⟩, hhanded⟩ | ⟨⟨result, hresult, hunsuccessful⟩, hhanded⟩
    · have hfailed := not_succeeds_of_raised hraised
      refine ⟨before, failed, after,
        ⟨earlier, rest, hlayers, hsucceeds, hfailed⟩, ⟨error, hraised⟩, ?_⟩
      intro name hafter hname
      have hmem : name ∈ handed := by
        rw [hexact name, hcalled]
        exact ⟨by simp [hafter], hname⟩
      rw [hhanded] at hmem
      have hdisjoint : ∀ other ∈ earlier.flatten ++ before, other ≠ name := by
        rw [← append_assoc, ← append_assoc] at hnodup
        have hfirst := (nodup_append.mp hnodup).1
        have hapart := (nodup_append.mp hfirst).2.2
        intro other hother
        exact hapart other hother name (mem_cons_of_mem failed hafter)
      exact hdisjoint name hmem rfl
    · have hmem : failed ∈ handed := by
        rw [hhanded]
        simp
      have hsuccess := ((hexact failed).mp hmem).2
      exact absurd hsuccess (not_succeeds_of_unsuccessful hresult hunsuccessful)
  · intro hlast
    obtain ⟨before', failed', after', hfirst, ⟨raised, hraised⟩, hnone⟩ :=
      hlast
    have hfailed : ¬ Succeeds replies failed := by
      rcases hend with ⟨⟨error, herror⟩, _⟩ | ⟨⟨result, hresult, hsuccess⟩, _⟩
      · exact not_succeeds_of_raised herror
      · exact not_succeeds_of_unsuccessful hresult hsuccess
    obtain ⟨_, hsameFailed, hsameAfter⟩ := hfirst.unique
      ⟨earlier, rest, hlayers, hsucceeds, hfailed⟩
    rw [hsameFailed] at hraised
    rw [hsameAfter] at hnone
    have hhanded : handed = earlier.flatten ++ before := by
      rcases hend with ⟨_, hhanded⟩ | ⟨⟨result, hresult, _⟩, _⟩
      · exact hhanded
      · rw [hraised] at hresult
        cases hresult
    intro name
    rw [hhanded, hcalled]
    constructor
    · intro hmem
      refine ⟨?_, hsucceeds name hmem⟩
      rcases mem_append.mp hmem with hfirst | hsecond
      · exact mem_append_left _ hfirst
      · exact mem_append_right _ (mem_append_left _ hsecond)
    · intro h
      obtain ⟨hmem, hname⟩ := h
      rcases mem_append.mp hmem with hfirst | hlayer
      · exact mem_append_left _ hfirst
      · rcases mem_append.mp hlayer with hbefore | htail
        · exact mem_append_right _ hbefore
        · rcases mem_cons.mp htail with hsame | hafter
          · rw [hsame] at hname
            exact absurd hname hfailed
          · exact absurd hname (hnone name hafter)

end HandedOver

def pairComposition (dependsOn : List ℕ) : SagaComposition ℕ ℕ where
  name := "pair"
  entries := Dict.ofList [(0, ⟨0, [], []⟩), (1, ⟨1, dependsOn, []⟩)]
  compensationPolicy := .strictSequential

def bareResult (success : Bool) : SagaResult ℕ (Option Unit) Unit where
  sagaName := "saga"
  correlationId := "1"
  startedAt := 0
  completedAt := 0
  success := success
  error := if success then none else some ()
  headers := Dict.empty
  steps := Dict.empty

def unitErrors : CompositorErrors ℕ Unit := ⟨fun _ => (), fun _ => ()⟩

/-- The second saga raises after the first, on which it depends, has
succeeded. -/
theorem hands_over_succeeded_pair : HandsOverSucceeded
      (fun name => if name = 0 then .ok (bareResult true)
        else .error (.exception ()))
      (runLayers (fun _ => none) unitErrors (pairComposition [0])
        (fun name => if name = 0 then .ok (bareResult true)
          else .error (.exception ())) none [[0], [1]]
        (initial (pairComposition [0]) "1")).1 [0] := by
  have hrun : forward (fun _ => none) unitErrors (pairComposition [0])
      (fun name => if name = 0 then .ok (bareResult true)
        else .error (.exception ())) none "1" =
      .ok (runLayers (fun _ => none) unitErrors (pairComposition [0])
        (fun name => if name = 0 then .ok (bareResult true)
          else .error (.exception ())) none [[0], [1]]
        (initial (pairComposition [0]) "1")) := rfl
  refine (hands_over_succeeded_iff hrun rfl).mpr ?_
  refine ⟨[], 1, [], ⟨[[0]], [], rfl, ?_, ?_⟩, ⟨(), rfl⟩, by simp⟩
  · intro name hmem
    have hname : name = 0 := by simpa using hmem
    rw [hname]
    exact ⟨bareResult true, rfl, rfl⟩
  · exact not_succeeds_of_raised rfl

/-- The first of two sagas in a layer fails by its result: it is handed to
compensation, and the second, which has succeeded, is not. -/
theorem not_hands_over_succeeded : ∃ run ctx handed,
      forward (fun _ => none) unitErrors (pairComposition [])
        (fun name => .ok (bareResult (decide (name = 1)))) none "1" = .ok run ∧
      failure? run = some (ctx, handed) ∧
      ¬ HandsOverSucceeded
        (fun name => .ok (bareResult (decide (name = 1)))) run.1 handed := by
  refine ⟨_, _, _, rfl, rfl, ?_⟩
  intro hexact
  have hfirst := ((hexact 0).mp (by decide)).2
  exact not_succeeds_of_unsuccessful rfl rfl hfirst

section Flows

variable [LinearOrder σ]

theorem mem_earlier_iff {layers earlier rest : List (List σ)}
    {layer : List σ} (hnodup : layers.flatten.Nodup)
    (hsplit : layers = earlier ++ layer :: rest) {name : σ}
    (hname : name ∈ layer) (source : σ) :
    source ∈ earlier.flatten ↔ layerIndex layers source < layerIndex layers name := by
  have hearlier : ∀ i, i < earlier.length → layers.getD i [] = earlier.getD i [] := by
    intro i hi
    rw [hsplit, getD_append _ _ _ _ hi]
  have hlayer : layers.getD earlier.length [] = layer := by
    rw [hsplit, getD_append_right _ _ _ _ (Nat.le_refl _)]
    simp
  have hindex : layerIndex layers name = earlier.length := by
    have hmem : name ∈ layers.getD earlier.length [] := by rwa [hlayer]
    exact ((mem_getD_iff hnodup).mp hmem).2
  rw [hindex]
  constructor
  · intro hmem
    obtain ⟨other, hother, hsource⟩ := mem_flatten.mp hmem
    obtain ⟨i, hi, rfl⟩ := mem_iff_getElem.mp hother
    have hfound : source ∈ layers.getD i [] := by
      rw [hearlier i hi, getD_eq_getElem _ _ hi]
      exact hsource
    rw [((mem_getD_iff hnodup).mp hfound).2]
    exact hi
  · intro hlt
    have hflat : source ∈ layers.flatten := by
      by_contra hnot
      have hmissing : layers.length ≤ layerIndex layers source := by
        unfold layerIndex
        rw [findIdx_eq_length_of_false]
        intro other hother
        exact decide_eq_false fun hmem =>
          hnot (mem_flatten.mpr ⟨other, hother, hmem⟩)
      rw [hsplit, length_append] at hmissing
      rw [hsplit] at hlt
      omega
    have hfound := (mem_getD_iff hnodup).mpr ⟨hflat, rfl⟩
    rw [hearlier _ hlt, getD_eq_getElem _ _ hlt] at hfound
    exact mem_flatten.mpr ⟨_, getElem_mem hlt, hfound⟩

variable [DecidableEq ι] [ToString σ]
variable {asDict : W → Option (Dict σ (Option W))}
variable {errors : CompositorErrors σ E} {composition : SagaComposition σ ι}
variable {initialInput : Option W}
variable {result : σ → SagaResult ι (Option W) E}

structure Delivers (asDict : W → Option (Dict σ (Option W)))
    (result : σ → SagaResult ι (Option W) E) (initialInput : Option W)
    (entry : CompositionEntry σ ι) (call : ResolveCall σ ι W E) : Prop where
  available : ∀ flow ∈ entry.dataFlows, flow.sourceSaga ∈ call.results.keys
  overlaid : call.input = DataFlowManager.overlay asDict entry result initialInput

def FlowsAhead (composition : SagaComposition σ ι) : Prop :=
  ∀ source name, composition.FlowsInto source name →
    ∃ layers, computeLayers composition.deps = .ok layers ∧
      layerIndex layers source < layerIndex layers name

omit [DecidableEq ι] in
theorem processResults_of_success {layer : List σ}
    (hkeys : ∀ name ∈ layer, name ∈ composition.entries.keys)
    (hsuccess : ∀ name ∈ layer, (result name).success = true)
    (progress : Progress σ ι W E) :
    ∃ next, processResults errors composition
        (layer.zip (layer.map (sagaReply errors composition
          fun name => .ok (result name)))) progress = (next, none) ∧
      next.calls = progress.calls ∧
      ∀ source, next.context.sagaResults.get? source =
        if source ∈ layer then some (result source)
        else progress.context.sagaResults.get? source := by
  induction layer generalizing progress with
  | nil => exact ⟨progress, rfl, rfl, by simp⟩
  | cons name rest ih =>
    obtain ⟨next, hnext, hcalls, hresults⟩ :=
      ih (fun other hmem => hkeys other (mem_cons_of_mem name hmem))
        (fun other hmem => hsuccess other (mem_cons_of_mem name hmem))
        (complete name (result name) progress)
    refine ⟨next, ?_, hcalls, ?_⟩
    · rw [map_cons, zip_cons_cons, sagaReply_of_mem (hkeys name mem_cons_self), processResults,
        if_pos (hsuccess name mem_cons_self), hnext]
    · intro source
      rw [hresults source]
      by_cases hmem : source ∈ rest
      · simp [hmem]
      · rw [if_neg hmem]
        by_cases hsame : source = name
        · rw [hsame, if_pos mem_cons_self]
          exact Dict.get?_set_self _ _ _
        · rw [if_neg (by simp [hsame, hmem])]
          exact Dict.get?_set_of_ne hsame _

/-- A call of `resolve_input` in a run in which every saga succeeds sees the
results of the earlier layers and no others. -/
theorem call_of_success {layers : List (List σ)}
    (hkeys : ∀ name ∈ layers.flatten, name ∈ composition.entries.keys)
    (hsuccess : ∀ name ∈ layers.flatten, (result name).success = true)
    (progress : Progress σ ι W E) {call : ResolveCall σ ι W E}
    (hcall : call ∈ (runLayers asDict errors composition
      (fun name => .ok (result name)) initialInput layers progress).1.calls) :
    call ∈ progress.calls ∨
      ∃ earlier layer rest entry, layers = earlier ++ layer :: rest ∧ call.name ∈ layer ∧
        composition.entries.get? call.name = some entry ∧
        call.input = DataFlowManager.resolveInput asDict entry call.results initialInput ∧
        ∀ source, call.results.get? source =
          if source ∈ earlier.flatten then some (result source)
          else progress.context.sagaResults.get? source := by
  induction layers generalizing progress with
  | nil => exact Or.inl hcall
  | cons layer rest ih =>
    obtain ⟨hbefore, _, hresolved⟩ := @resolve_layer _ ι W E _ _ asDict
      composition initialInput layer progress
    obtain ⟨next, hnext, hcalls, hresults⟩ :=
      @processResults_of_success _ ι W E _ _ errors composition result
        layer (fun name hmem => hkeys name (mem_append_left _ hmem))
        (fun name hmem => hsuccess name (mem_append_left _ hmem))
        (layer.foldl (resolveSaga asDict composition initialInput) progress)
    unfold runLayers at hcall
    dsimp only at hcall
    rw [hnext] at hcall
    have hrest := ih
      (fun name hmem => hkeys name (mem_append_right layer hmem))
      (fun name hmem => hsuccess name (mem_append_right layer hmem))
      next hcall
    rcases hrest with hold | ⟨earlier, other, later, entry, hsplit, hname,
      hentry, hinput, hseen⟩
    · rw [hcalls, hresolved] at hold
      rcases mem_append.mp hold with hprogress | hlayer
      · exact Or.inl hprogress
      · obtain ⟨name, hname, hfor⟩ := mem_filterMap.mp hlayer
        obtain ⟨entry, hentry, hsame⟩ := Option.map_eq_some_iff.mp hfor
        refine Or.inr ⟨[], layer, rest, entry, rfl, ?_, ?_, ?_, ?_⟩
        · rw [← hsame]
          exact hname
        · rw [← hsame]
          exact hentry
        · rw [← hsame]
        · intro source
          rw [← hsame]
          simp
    · refine Or.inr ⟨layer :: earlier, other, later, entry, ?_, hname, hentry, hinput, ?_⟩
      · rw [hsplit]
        rfl
      · intro source
        rw [hseen source, hresults source, hbefore, flatten_cons]
        by_cases hlater : source ∈ earlier.flatten
        · simp [hlater]
        · by_cases hfirst : source ∈ layer
          · simp [hfirst]
          · simp [hlater, hfirst]

theorem called_of_success {layers : List (List σ)}
    (hkeys : ∀ name ∈ layers.flatten, name ∈ composition.entries.keys)
    (hsuccess : ∀ name ∈ layers.flatten, (result name).success = true)
    (progress : Progress σ ι W E) :
    Progress.called (runLayers asDict errors composition
        (fun name => .ok (result name)) initialInput layers progress).1 =
      Progress.called progress ++ layers.flatten := by
  have hran := @runLayers_ran σ ι W E _ _ _ asDict errors composition
    (fun name => .ok (result name)) initialInput layers hkeys progress
  generalize runLayers asDict errors composition
    (fun name => .ok (result name)) initialInput layers progress = ran at *
  obtain ⟨next, fault⟩ := ran
  dsimp only at hran ⊢
  cases hran with
  | through hall hcompleted hcalled => exact hcalled
  | stopped earlier layer rest fault hsplit hearlier hlayer hcalled =>
    generalize hended : some fault = ended at hlayer
    generalize next.completed = completed at hlayer
    cases hlayer with
    | through => cases hended
    | raised before failed after other hlayerSplit hbefore hfailed =>
      cases hfailed
    | unsuccessful before failed after lost hlayerSplit hbefore hfailed hunsuccessful =>
        have hmem : failed ∈ layers.flatten := by
          rw [hsplit, hlayerSplit]
          simp
        have hsame : result failed = lost := Except.ok.inj hfailed
        rw [← hsame, hsuccess failed hmem] at hunsuccessful
        cases hunsuccessful

/-- In the runs in which all sagas succeed no declared flow is dropped exactly
when every flow comes from an earlier layer. -/
theorem delivers_iff (hvalid : CompositionValidator.validate composition = .ok ())
    (hsuccess : ∀ name ∈ composition.entries.keys,
      (result name).success = true) {correlationId : String}
    {run : Progress σ ι W E × Option (Fault E)}
    (hrun : forward asDict errors composition
      (fun name => .ok (result name)) initialInput correlationId = .ok run) :
    (∀ call ∈ run.1.calls, ∀ entry, composition.entries.get? call.name = some entry →
          Delivers asDict result initialInput entry call) ↔
      FlowsAhead composition := by
  obtain ⟨layers, hlayers⟩ := (validate_eq_ok.mp hvalid).layers
  have hkeys : ∀ name ∈ layers.flatten, name ∈ composition.entries.keys :=
    fun name hmem => (SagaComposition.mem_layers hlayers).mp hmem
  have hall : ∀ name ∈ layers.flatten, (result name).success = true :=
    fun name hmem => hsuccess name (hkeys name hmem)
  have hnodup := SagaComposition.layers_nodup hlayers
  have hsame : runLayers asDict errors composition
      (fun name => .ok (result name)) initialInput layers
        (initial composition correlationId) = run := by
    unfold forward at hrun
    rw [hlayers] at hrun
    exact Except.ok.inj hrun
  have hcalled := @called_of_success σ ι W E _ _ _ asDict errors composition
    initialInput result layers hkeys hall (initial composition correlationId)
  have hcalls : ∀ call ∈ run.1.calls, ∃ entry, composition.entries.get? call.name = some entry ∧
        call.input = DataFlowManager.resolveInput asDict entry call.results initialInput ∧
        ∀ source, call.results.get? source =
          if layerIndex layers source < layerIndex layers call.name then
            some (result source)
          else none := by
    intro call hcall
    rw [← hsame] at hcall
    rcases call_of_success hkeys hall _ hcall with hold | ⟨earlier, layer,
      rest, entry, hsplit, hname, hentry, hinput, hseen⟩
    · cases hold
    · refine ⟨entry, hentry, hinput, ?_⟩
      intro source
      rw [hseen source]
      simp only [mem_earlier_iff hnodup hsplit hname source]
      rfl
  rw [hsame] at hcalled
  constructor
  · intro hdelivers source name hflows
    obtain ⟨entry, hentry, flow, hflow, hsource⟩ := hflows
    have hname : name ∈ Progress.called run.1 := by
      rw [hcalled]
      apply mem_append_right
      exact (SagaComposition.mem_layers hlayers).mpr (Dict.mem_keys_of_get? hentry)
    obtain ⟨call, hcall, hcallName⟩ := mem_map.mp hname
    obtain ⟨_, _, _, hseen⟩ := hcalls call hcall
    rw [← hcallName] at hentry ⊢
    have havailable := (hdelivers call hcall entry hentry).available flow hflow
    rw [hsource] at havailable
    obtain ⟨found, hfound⟩ := Dict.mem_keys_iff.mp havailable
    rw [hseen source] at hfound
    refine ⟨layers, hlayers, ?_⟩
    by_contra hnot
    rw [if_neg hnot] at hfound
    cases hfound
  · intro hahead call hcall entry hentry
    obtain ⟨other, hother, hinput, hseen⟩ := hcalls call hcall
    have hentries : entry = other := Option.some.inj (hentry.symm.trans hother)
    have hget : ∀ flow ∈ entry.dataFlows, call.results.get? flow.sourceSaga =
          some (result flow.sourceSaga) := by
      intro flow hflow
      obtain ⟨others, hothers, hlt⟩ := hahead flow.sourceSaga call.name
        ⟨entry, hentry, flow, hflow, rfl⟩
      rw [Except.ok.inj (hothers.symm.trans hlayers)] at hlt
      rw [hseen, if_pos hlt]
    constructor
    · intro flow hflow
      exact Dict.mem_keys_of_get? (hget flow hflow)
    · rw [hinput, ← hentries]
      exact DataFlowManager.resolveInput_eq_overlay asDict initialInput hget

end Flows

/-- The pair whose second saga takes the result of the first as its input. -/
def flowComposition (dependsOn : List ℕ) : SagaComposition ℕ ℕ where
  name := "flow"
  entries := Dict.ofList [(0, ⟨0, [], []⟩), (1, ⟨1, dependsOn, [⟨0, none, none⟩]⟩)]
  compensationPolicy := .strictSequential

/-- The flow is delivered to a saga which depends on its source. -/
theorem delivers_flowComposition : ∃ call entry,
      call ∈ (runLayers (fun _ => none) unitErrors (flowComposition [0])
        (fun _ => .ok (bareResult true)) none [[0], [1]]
        (initial (flowComposition [0]) "1")).1.calls ∧
      (flowComposition [0]).entries.get? call.name = some entry ∧
      entry.dataFlows = [⟨0, none, none⟩] ∧
      Delivers (fun _ => none) (fun _ => bareResult true) none entry
        call := by
  have hrun : forward (fun _ => none) unitErrors (flowComposition [0])
      (fun _ => .ok (bareResult true)) none "1" =
      .ok (runLayers (fun _ => none) unitErrors (flowComposition [0])
        (fun _ => .ok (bareResult true)) none [[0], [1]]
        (initial (flowComposition [0]) "1")) := rfl
  have hearlier : ∀ source name,
      (∃ entry, (flowComposition [0]).entries.get? name = some entry ∧
        ∃ flow ∈ entry.dataFlows, flow.sourceSaga = source) →
      source = 0 ∧ name = 1 := by
    rintro source name ⟨entry, hentry, flow, hflow, hsource⟩
    have hitem := Dict.get?_eq_some_iff.mp hentry
    have hitems : (flowComposition [0]).entries.items =
        [(0, ⟨0, [], []⟩), (1, ⟨1, [0], [⟨0, none, none⟩]⟩)] := rfl
    rw [hitems] at hitem
    rcases mem_cons.mp hitem with hfirst | hsecond
    · cases hfirst
      cases hflow
    · cases mem_singleton.mp hsecond
      cases mem_singleton.mp hflow
      exact ⟨hsource.symm, rfl⟩
  have hdelivers := (delivers_iff rfl (fun _ _ => rfl) hrun).mpr (by
    intro source name hflows
    obtain ⟨rfl, rfl⟩ := hearlier source name hflows
    exact ⟨[[0], [1]], rfl, by decide⟩)
  refine ⟨_, ⟨1, [0], [⟨0, none, none⟩]⟩, mem_cons_of_mem _ mem_cons_self, rfl, rfl, ?_⟩
  exact hdelivers _ (mem_cons_of_mem _ mem_cons_self) _ rfl

/-- An accepted composition whose flow has its source in the same layer: the
source has no result yet and the flow is dropped. -/
theorem not_delivers_of_same_layer : ∃ run call entry,
      CompositionValidator.validate (flowComposition []) = .ok () ∧
      forward (fun _ => none) unitErrors (flowComposition [])
        (fun _ => .ok (bareResult true)) none "1" = .ok run ∧
      call ∈ run.1.calls ∧
      (flowComposition []).entries.get? call.name = some entry ∧
      ¬ Delivers (fun _ => none) (fun _ => bareResult true) none entry
        call := by
  refine ⟨_, ⟨1, Dict.empty, .resolved Dict.empty⟩,
    ⟨1, [], [⟨0, none, none⟩]⟩, rfl, rfl, ?_, rfl, ?_⟩
  · exact mem_cons_of_mem _ mem_cons_self
  · intro hdelivers
    have hmem := hdelivers.available ⟨0, none, none⟩ mem_cons_self
    cases hmem

end SagaCompositor

end PyFly.Saga
