import PyFly.SagaTopology

/-!
# The depth of a layer

A node lies in the layer whose index is the length of the longest chain of
dependencies below it.  The layers depend on a dependency map only through its
keys and the members of its lists: what has been processed determines the
queue of a round, whatever the in-degrees have been counted from.
-/

namespace PyFly.Saga

open Library List

variable {ι : Type} [LinearOrder ι]

inductive ChainBelow (deps : Dict ι (List ι)) : ℕ → ι → Prop
  | nil (node : ι) : ChainBelow deps 0 node
  | cons {length : ℕ} {pred node : ι} (hpred : pred ∈ predecessors deps node)
      (hchain : ChainBelow deps length pred) :
      ChainBelow deps (length + 1) node

/-- Some dependency is not a key, or the graph has a cycle. -/
def Broken (deps : Dict ι (List ι)) : Prop :=
  (∃ node, ∃ pred ∈ predecessors deps node, pred ∉ deps.keys) ∨ ∃ node, Relation.TransGen
      (fun pred node => pred ∈ predecessors deps node) node node

structure Stratifies (deps : Dict ι (List ι)) (layers : List (List ι)) :
    Prop where
  partition : layers.flatten.Perm deps.keys
  nonempty : ∀ layer ∈ layers, layer ≠ []
  sorted : ∀ layer ∈ layers, layer.Pairwise (· < ·)
  depth : ∀ node ∈ deps.keys, ∃ depth, node ∈ layers.getD depth [] ∧
    IsGreatest {length | ChainBelow deps length node} depth
  earlier : ∀ node, ∀ pred ∈ predecessors deps node, ∀ i j,
    node ∈ layers.getD i [] → pred ∈ layers.getD j [] → j < i

/-- The layers which the `while` loop has appended after so many rounds. -/
def layersWithin (deps : Dict ι (List ι)) (rounds : ℕ) : List (List ι) :=
  let graph := buildGraph deps.items ⟨fun _ => 0, fun _ => []⟩
  peelLayers graph.adjacency rounds graph.inDegree ((deps.keys.filter fun node =>
      graph.inDegree node = 0).insertionSort (· ≤ ·))

theorem computeLayers_eq (deps : Dict ι (List ι)) : computeLayers deps =
      if (layersWithin deps deps.items.length).flatten.length ≠
          deps.items.length then
        .error (.cycle (layersWithin deps deps.items.length).flatten.length deps.items.length)
      else .ok (layersWithin deps deps.items.length) := by
  unfold computeLayers
  by_cases hempty : deps.items = []
  · simp [hempty, layersWithin, peelLayers]
  · rw [if_neg hempty]
    rfl

/-! ## The queue follows from what has been processed -/

variable {deps deps' : Dict ι (List ι)} {graph graph' : DependencyGraph ι}
  {processed queue queue' : List ι} {inDegree inDegree' : ι → ℤ}

theorem KahnState.queue_eq (hkeys : deps'.keys = deps.keys)
    (hpreds : ∀ node pred, pred ∈ predecessors deps' node ↔ pred ∈ predecessors deps node)
    (hstate : KahnState deps processed inDegree queue)
    (hstate' : KahnState deps' processed inDegree' queue')
    (hsorted : queue.Pairwise (· ≤ ·)) (hsorted' : queue'.Pairwise (· ≤ ·)) :
    queue' = queue := by
  have hperm : queue'.Perm queue := by
    rw [perm_ext_iff_of_nodup hstate'.queue_nodup hstate.queue_nodup]
    intro node
    rw [hstate.mem_queue, hstate'.mem_queue, hkeys]
    simp only [hpreds]
  exact hperm.eq_of_pairwise' hsorted' hsorted

theorem KahnState.length_lt {first : ι} {rest : List ι}
    (hstate : KahnState deps processed inDegree (first :: rest)) :
    processed.length < deps.keys.length := by
  obtain ⟨hkey, hfresh, -⟩ :=
    (hstate.mem_queue first).mp mem_cons_self
  have hsub : (first :: processed).Subperm deps.keys := by
    apply subperm_of_subset (nodup_cons.mpr ⟨hfresh, hstate.processed_nodup⟩)
    intro node hnode
    rcases mem_cons.mp hnode with rfl | hold
    · exact hkey
    · exact hstate.processed_keys node hold
  exact hsub.length_le

theorem peelLayers_congr (hkeys : deps'.keys = deps.keys)
    (hpreds : ∀ node pred, pred ∈ predecessors deps' node ↔ pred ∈ predecessors deps node)
    (hgraph : graph = buildGraph deps.items ⟨fun _ => 0, fun _ => []⟩)
    (hgraph' : graph' = buildGraph deps'.items ⟨fun _ => 0, fun _ => []⟩)
    {fuel fuel' : ℕ} (hstate : KahnState deps processed inDegree queue)
    (hstate' : KahnState deps' processed inDegree' queue')
    (hsorted : queue.Pairwise (· ≤ ·)) (hsorted' : queue'.Pairwise (· ≤ ·))
    (hfuel : deps.keys.length ≤ processed.length + fuel)
    (hfuel' : deps.keys.length ≤ processed.length + fuel') :
    peelLayers graph'.adjacency fuel' inDegree' queue' =
      peelLayers graph.adjacency fuel inDegree queue := by
  induction fuel generalizing fuel' processed queue queue' inDegree inDegree' with
  | zero =>
    obtain rfl := hstate.queue_eq hkeys hpreds hstate' hsorted hsorted'
    cases queue' with
    | nil => cases fuel' <;> rfl
    | cons first rest =>
      have := hstate.length_lt
      omega
  | succ fuel ih =>
    obtain rfl := hstate.queue_eq hkeys hpreds hstate' hsorted hsorted'
    cases queue' with
    | nil => cases fuel' <;> rfl
    | cons first rest =>
      have hlt := hstate.length_lt
      cases fuel' with
      | zero => omega
      | succ fuel' =>
        have hperm := perm_insertionSort (· ≤ ·) (first :: rest)
        have hlength := hperm.length_eq
        rw [length_cons] at hlength
        rw [peelLayers, peelLayers]
        refine congrArg (List.cons _) (ih (hstate.expandLayer hgraph hperm)
          (hstate'.expandLayer hgraph' hperm)
          (pairwise_insertionSort _ _)
          (pairwise_insertionSort _ _) ?_ ?_)
        · rw [length_append]
          omega
        · rw [length_append]
          omega

theorem layersWithin_congr (hkeys : deps'.keys = deps.keys)
    (hpreds : ∀ node pred, pred ∈ predecessors deps' node ↔
      pred ∈ predecessors deps node) {rounds rounds' : ℕ}
    (hrounds : deps.items.length ≤ rounds)
    (hrounds' : deps.items.length ≤ rounds') :
    layersWithin deps' rounds' = layersWithin deps rounds := by
  apply peelLayers_congr hkeys hpreds rfl rfl (kahnState_initial deps)
    (kahnState_initial deps') (pairwise_insertionSort _ _)
    (pairwise_insertionSort _ _)
  · simpa [Dict.keys] using hrounds
  · simpa [Dict.keys] using hrounds'

theorem computeLayers_congr (hkeys : deps'.keys = deps.keys)
    (hpreds : ∀ node pred, pred ∈ predecessors deps' node ↔ pred ∈ predecessors deps node) :
    computeLayers deps' = computeLayers deps := by
  have hlength : deps'.items.length = deps.items.length := by
    simpa [Dict.keys] using congrArg List.length hkeys
  rw [computeLayers_eq, computeLayers_eq, hlength,
    layersWithin_congr hkeys hpreds le_rfl le_rfl]

/-! ## Chains of dependencies -/

variable {node : ι}

theorem mem_queue_of_mem_head {adjacency : ι → List ι} {fuel : ℕ} {layer : List ι}
    (hlayer : layer ∈ (peelLayers adjacency fuel inDegree queue).head?)
    (hnode : node ∈ layer) : node ∈ queue := by
  cases fuel with
  | zero => cases hlayer
  | succ fuel =>
    cases queue with
    | nil => cases hlayer
    | cons first rest =>
      obtain rfl := Option.some.inj hlayer
      exact (mem_insertionSort _).mp hnode

/-- A node behind the first layer waits for one of the layer before its own. -/
theorem peelLayers_linked (hgraph : graph = buildGraph deps.items ⟨fun _ => 0, fun _ => []⟩)
    (fuel : ℕ) (hstate : KahnState deps processed inDegree queue) :
    (peelLayers graph.adjacency fuel inDegree queue).IsChain
      fun layer next => ∀ node ∈ next, ∃ pred ∈ predecessors deps node, pred ∈ layer := by
  induction fuel generalizing processed queue inDegree with
  | zero => exact isChain_nil
  | succ fuel ih =>
    cases queue with
    | nil => exact isChain_nil
    | cons first rest =>
      have hperm := perm_insertionSort (· ≤ ·) (first :: rest)
      have hnext := hstate.expandLayer hgraph hperm
      rw [peelLayers, isChain_cons]
      refine ⟨?_, ih hnext⟩
      intro next hmem node hnode
      obtain ⟨hkey, hfresh, hall⟩ :=
        (hnext.mem_queue node).mp (mem_queue_of_mem_head hmem hnode)
      rw [mem_append, not_or, hperm.mem_iff, hstate.mem_queue] at hfresh
      by_contra hnone
      refine hfresh.2 ⟨hkey, hfresh.1, ?_⟩
      intro pred hpred
      rcases mem_append.mp (hall pred hpred) with hold | hnew
      · exact hold
      · exact absurd ⟨pred, hpred, hnew⟩ hnone

variable {layers : List (List ι)}

theorem chainBelow_of_mem (hlinked : layers.IsChain fun layer next => ∀ node ∈ next,
      ∃ pred ∈ predecessors deps node, pred ∈ layer) {depth : ℕ}
    (hmem : node ∈ layers.getD depth []) : ChainBelow deps depth node := by
  induction depth generalizing node with
  | zero => exact .nil node
  | succ depth ih =>
    by_cases hdepth : depth + 1 < layers.length
    · rw [getD_eq_getElem _ _ hdepth] at hmem
      obtain ⟨pred, hpred, hearlier⟩ :=
        isChain_iff_getElem.mp hlinked depth hdepth node hmem
      refine .cons hpred (ih ?_)
      rw [getD_eq_getElem _ _ (by omega)]
      exact hearlier
    · rw [getD_eq_default _ _ (by omega)] at hmem
      cases hmem

theorem Layering.length_le (hlayering : Layering deps [] layers)
    (hperm : layers.flatten.Perm deps.keys) {length : ℕ}
    (hchain : ChainBelow deps length node) :
    length ≤ layerIndex layers node := by
  induction hchain with
  | nil node => exact Nat.zero_le _
  | @cons length pred node hpred hchain ih =>
    have hmem : node ∈ layers.flatten :=
      hperm.mem_iff.mpr (mem_keys_of_mem_predecessors hpred)
    have := hlayering.layerIndex_lt hmem hpred
    omega

theorem stratifies_of_ok (h : computeLayers deps = .ok layers) : Stratifies deps layers := by
  obtain ⟨hlayering, hperm⟩ := computeLayers_layering h
  have hnodup : layers.flatten.Nodup := hperm.nodup_iff.mpr deps.keys_nodup
  have hlinked : layers.IsChain fun layer next => ∀ node ∈ next,
      ∃ pred ∈ predecessors deps node, pred ∈ layer := by
    rw [computeLayers_eq] at h
    split at h
    · cases h
    · obtain rfl := Except.ok.inj h
      exact peelLayers_linked rfl _ (kahnState_initial deps)
  refine ⟨hperm, hlayering.nonempty, ?_, ?_, ?_⟩
  · intro layer hlayer
    exact ((hlayering.sorted layer hlayer).and ((nodup_flatten.mp hnodup).1 layer hlayer)).imp
        fun hboth => lt_of_le_of_ne hboth.1 hboth.2
  · intro node hkey
    have hmem : node ∈ layers.getD (layerIndex layers node) [] :=
      (mem_getD_iff hnodup).mpr ⟨hperm.mem_iff.mpr hkey, rfl⟩
    exact ⟨_, hmem, chainBelow_of_mem hlinked hmem,
      fun length hchain => hlayering.length_le hperm hchain⟩
  · intro node pred hpred i j hnode hmem
    obtain ⟨hflat, rfl⟩ := (mem_getD_iff hnodup).mp hnode
    obtain ⟨-, rfl⟩ := (mem_getD_iff hnodup).mp hmem
    exact hlayering.layerIndex_lt hflat hpred

/-- `compute_layers` raises exactly for a broken map, its loop ends within as
many rounds as there are keys, and duplicates in a list make no difference. -/
theorem computeLayers_stratifies (deps : Dict ι (List ι)) : (match computeLayers deps with
      | .error _ => Broken deps
      | .ok layers => ¬ Broken deps ∧ Stratifies deps layers) ∧
    (∀ rounds, deps.items.length ≤ rounds →
      layersWithin deps rounds = layersWithin deps deps.items.length) ∧
    ∀ deps' : Dict ι (List ι), deps'.keys = deps.keys →
      (∀ node pred, pred ∈ predecessors deps' node ↔ pred ∈ predecessors deps node) →
      computeLayers deps' = computeLayers deps := by
  refine ⟨?_, fun rounds hrounds =>
    layersWithin_congr rfl (fun _ _ => Iff.rfl) le_rfl hrounds,
    fun deps' hkeys hpreds => computeLayers_congr hkeys hpreds⟩
  have hok : (∃ layers, computeLayers deps = .ok layers) ↔ ¬ Broken deps := by
    rw [computeLayers_isOk_iff, Broken, not_or]
    push Not
    exact Iff.rfl
  cases h : computeLayers deps with
  | error error =>
    by_contra hbroken
    obtain ⟨layers, hlayers⟩ := hok.mpr hbroken
    rw [h] at hlayers
    cases hlayers
  | ok layers => exact ⟨hok.mp ⟨layers, h⟩, stratifies_of_ok h⟩

/-- A dependency which is listed twice counts once. -/
example : computeLayers (Dict.ofList [(0, [1, 1]), (1, [])]) = .ok [[1], [0]] := by
  decide

end PyFly.Saga
