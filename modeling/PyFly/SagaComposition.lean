import PyFly.SagaTopology

/-!
# Compositions of sagas

A composition names the sagas to run, what they depend on and which results
flow into their inputs.  The builder only lets a composition through which the
validator accepts.
-/

namespace PyFly.Saga

open Library Transactional

variable {σ ι : Type}

/-- Output of one saga to the input of another: of one step or, without a
`source_step`, the whole result.  Saga names and input keys are strings in the
source, hence of one type here. -/
structure SagaDataFlow (σ ι : Type) where
  sourceSaga : σ
  sourceStep : Option ι
  targetKey : Option σ

structure CompositionEntry (σ ι : Type) where
  sagaName : σ
  dependsOn : List σ
  dataFlows : List (SagaDataFlow σ ι)

structure SagaComposition (σ ι : Type) where
  name : String
  entries : Dict σ (CompositionEntry σ ι)
  compensationPolicy : CompensationPolicy

/-- The `ValueError`s of the builder and of the validator. -/
inductive CompositionError (σ : Type)
  | noEntries
  | missingDependency (name dependency : σ) (composition : String)
  | missingSource (name source : σ) (composition : String)
  | topology (error : TopologyError)

def CompositionError.message [ToString σ] : CompositionError σ → String
  | .noEntries => "Composition must contain at least one saga entry"
  | .missingDependency name dependency composition =>
    s!"Entry '{name}' depends on '{dependency}' which does not exist in " ++
      s!"composition '{composition}'"
  | .missingSource name source composition =>
    s!"Entry '{name}' has a data flow referencing source saga " ++
      s!"'{source}' which does not exist in composition '{composition}'"
  | .topology (.cycle processed total) =>
    s!"Dependency graph contains a cycle — processed {processed} of " ++ s!"{total} steps"

namespace SagaComposition

def deps (composition : SagaComposition σ ι) : Dict σ (List σ) :=
  composition.entries.mapValues fun _ entry => entry.dependsOn

@[simp] theorem keys_deps (composition : SagaComposition σ ι) :
    composition.deps.keys = composition.entries.keys := by
  simp [deps]

/-- `source` feeds the entry of a given name. -/
def FlowsInto [DecidableEq σ] (composition : SagaComposition σ ι) (source name : σ) : Prop :=
  ∃ entry, composition.entries.get? name = some entry ∧
    ∃ flow ∈ entry.dataFlows, flow.sourceSaga = source

def missingReference? [DecidableEq σ] (composition : SagaComposition σ ι)
    (references : CompositionEntry σ ι → List σ)
    (error : σ → σ → String → CompositionError σ) :
    Option (CompositionError σ) :=
  composition.entries.items.findSome? fun item =>
    ((references item.2).find? fun name =>
      decide (name ∉ composition.entries.keys)).map fun name =>
        error item.1 name composition.name

end SagaComposition

def CompositionValidator.validate [LinearOrder σ]
    (composition : SagaComposition σ ι) : Except (CompositionError σ) Unit :=
  match composition.missingReference? CompositionEntry.dependsOn
      .missingDependency with
  | some error => .error error
  | none =>
    match composition.missingReference?
        (fun entry => entry.dataFlows.map SagaDataFlow.sourceSaga)
        .missingSource with
    | some error => .error error
    | none =>
      match computeLayers composition.deps with
      | .error error => .error (.topology error)
      | .ok _ => .ok ()

section Validation

theorem missingReference?_eq_none [DecidableEq σ] {composition : SagaComposition σ ι}
    {references : CompositionEntry σ ι → List σ}
    {error : σ → σ → String → CompositionError σ} :
    composition.missingReference? references error = none ↔
      ∀ name entry, composition.entries.get? name = some entry →
        ∀ reference ∈ references entry, reference ∈ composition.entries.keys := by
  unfold SagaComposition.missingReference?
  rw [List.findSome?_eq_none_iff]
  constructor
  · intro h name entry hget reference hmem
    have hnone := h (name, entry) (Dict.get?_eq_some_iff.mp hget)
    rw [Option.map_eq_none_iff, List.find?_eq_none] at hnone
    by_contra hmissing
    exact hnone reference hmem (decide_eq_true hmissing)
  · intro h item hitem
    rw [Option.map_eq_none_iff, List.find?_eq_none]
    intro reference hmem hmissing
    exact of_decide_eq_true hmissing
      (h item.1 item.2 (Dict.get?_eq_some_iff.mpr hitem) reference hmem)

variable [LinearOrder σ]

structure SagaComposition.Accepted (composition : SagaComposition σ ι) :
    Prop where
  dependencies : ∀ name entry, composition.entries.get? name = some entry →
    ∀ dependency ∈ entry.dependsOn, dependency ∈ composition.entries.keys
  sources : ∀ source name, composition.FlowsInto source name → source ∈ composition.entries.keys
  layers : ∃ layers, computeLayers composition.deps = .ok layers

variable {composition : SagaComposition σ ι}

theorem validate_eq_ok :
    CompositionValidator.validate composition = .ok () ↔ composition.Accepted := by
  unfold CompositionValidator.validate
  have hdependencies := @missingReference?_eq_none _ _ _ composition
    CompositionEntry.dependsOn .missingDependency
  have hsources := @missingReference?_eq_none _ _ _ composition
    (fun entry => entry.dataFlows.map SagaDataFlow.sourceSaga) .missingSource
  constructor
  · intro h
    split at h
    · cases h
    · next hfirst =>
        split at h
        · cases h
        · next hsecond =>
            split at h
            · cases h
            · next layers hlayers =>
                refine ⟨hdependencies.mp hfirst, ?_, layers, hlayers⟩
                intro source name hflows
                obtain ⟨entry, hget, flow, hflow, hsource⟩ := hflows
                exact hsources.mp hsecond name entry hget source
                  (List.mem_map.mpr ⟨flow, hflow, hsource⟩)
  · intro h
    obtain ⟨layers, hlayers⟩ := h.layers
    rw [hdependencies.mpr h.dependencies, hsources.mpr ?_, hlayers]
    intro name entry hget source hmem
    obtain ⟨flow, hflow, hsource⟩ := List.mem_map.mp hmem
    exact h.sources source name ⟨entry, hget, flow, hflow, hsource⟩

theorem SagaComposition.mem_layers {layers : List (List σ)}
    (hlayers : computeLayers composition.deps = .ok layers) {name : σ} :
    name ∈ layers.flatten ↔ name ∈ composition.entries.keys := by
  rw [(computeLayers_layering hlayers).2.mem_iff, keys_deps]

theorem SagaComposition.layers_nodup {layers : List (List σ)}
    (hlayers : computeLayers composition.deps = .ok layers) :
    layers.flatten.Nodup := by
  rw [(computeLayers_layering hlayers).2.nodup_iff]
  exact composition.deps.keys_nodup

end Validation

end PyFly.Saga
