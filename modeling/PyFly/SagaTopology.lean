import PyFly.Library.Acyclic
import PyFly.SagaDefinition
import Mathlib

/-!
# Execution layers by Kahn's algorithm

`SagaTopology.compute_layers` peels a dependency map layer by layer.  The
correctness argument follows the loop: after every round the remaining
in-degree of a node counts its predecessors outside the processed set, hence
the queue holds exactly the unprocessed nodes whose predecessors have all
been processed.
-/

namespace PyFly.Saga

open Library List

variable {ι : Type} [LinearOrder ι]

/-- The `ValueError` of `compute_layers`. -/
inductive TopologyError
  | cycle (processed total : ℕ)
  deriving DecidableEq, Repr

structure DependencyGraph (ι : Type) where
  inDegree : ι → ℤ
  adjacency : ι → List ι

def DependencyGraph.addEdge (node : ι) (graph : DependencyGraph ι)
    (pred : ι) : DependencyGraph ι where
  inDegree := Function.update graph.inDegree node (graph.inDegree node + 1)
  adjacency := Function.update graph.adjacency pred (graph.adjacency pred ++ [node])

def buildGraph (items : List (ι × List ι)) (graph : DependencyGraph ι) : DependencyGraph ι :=
  items.foldl (fun graph item => item.2.foldl (.addEdge item.1) graph) graph

def visitNeighbour (state : (ι → ℤ) × List ι) (neighbour : ι) : (ι → ℤ) × List ι :=
  let degree := state.1 neighbour - 1
  (Function.update state.1 neighbour degree,
    if degree = 0 then state.2 ++ [neighbour] else state.2)

/-- The two nested `for` loops over a layer and its neighbours. -/
def expandLayer (adjacency : ι → List ι) (inDegree : ι → ℤ)
    (layer : List ι) : (ι → ℤ) × List ι :=
  (layer.flatMap adjacency).foldl visitNeighbour (inDegree, [])

/-- The `while queue` loop, with one unit of fuel per layer. -/
def peelLayers (adjacency : ι → List ι) : ℕ → (ι → ℤ) → List ι → List (List ι)
  | 0, _, _ => []
  | _ + 1, _, [] => []
  | fuel + 1, inDegree, first :: rest =>
    let layer := (first :: rest).insertionSort (· ≤ ·)
    let next := expandLayer adjacency inDegree layer
    layer :: peelLayers adjacency fuel next.1 (next.2.insertionSort (· ≤ ·))

def computeLayers (deps : Dict ι (List ι)) : Except TopologyError (List (List ι)) :=
  if deps.items = [] then .ok []
  else
    let graph := buildGraph deps.items ⟨fun _ => 0, fun _ => []⟩
    let queue := (deps.keys.filter fun node =>
      graph.inDegree node = 0).insertionSort (· ≤ ·)
    let layers := peelLayers graph.adjacency deps.items.length
      graph.inDegree queue
    let processed := layers.flatten.length
    if processed ≠ deps.items.length then
      .error (.cycle processed deps.items.length)
    else .ok layers

def predecessors (deps : Dict ι (List ι)) (node : ι) : List ι :=
  (deps.get? node).getD []

/-! ## The graph built from the dependency map -/

theorem foldl_addEdge_inDegree (node : ι) (preds : List ι)
    (graph : DependencyGraph ι) (other : ι) :
    (preds.foldl (.addEdge node) graph).inDegree other =
      graph.inDegree other + if other = node then (preds.length : ℤ) else 0 := by
  induction preds generalizing graph with
  | nil => simp
  | cons pred rest ih =>
    rw [foldl_cons, ih]
    by_cases hnode : other = node
    · subst other
      simp [DependencyGraph.addEdge]
      omega
    · simp [DependencyGraph.addEdge, hnode]

theorem foldl_addEdge_adjacency (node : ι) (preds : List ι)
    (graph : DependencyGraph ι) (pred other : ι) :
    ((preds.foldl (.addEdge node) graph).adjacency pred).count other =
      (graph.adjacency pred).count other + if other = node then preds.count pred else 0 := by
  induction preds generalizing graph with
  | nil => simp
  | cons head rest ih =>
    rw [foldl_cons, ih]
    have hhead : ((DependencyGraph.addEdge node graph head).adjacency pred).count other =
          (graph.adjacency pred).count other + if other = node ∧ head = pred then 1 else 0 := by
      by_cases hpred : pred = head
      · subst pred
        by_cases hnode : other = node
        · simp [DependencyGraph.addEdge, hnode]
        · simp [DependencyGraph.addEdge, hnode, Ne.symm hnode]
      · simp [DependencyGraph.addEdge, hpred, Ne.symm hpred]
    rw [hhead, count_cons]
    by_cases hnode : other = node
    · by_cases hpred : head = pred
      · simp [hnode, hpred]
        omega
      · simp [hnode, hpred]
    · simp [hnode]

def filedPredecessors (items : List (ι × List ι)) (node : ι) : List ι :=
  (items.filter fun item => item.1 = node).flatMap Prod.snd

theorem filedPredecessors_cons (item : ι × List ι) (rest : List (ι × List ι)) (node : ι) :
    filedPredecessors (item :: rest) node = (if node = item.1 then item.2 else []) ++
        filedPredecessors rest node := by
  by_cases hnode : item.1 = node
  · simp [filedPredecessors, hnode]
  · simp [filedPredecessors, hnode, Ne.symm hnode]

theorem filedPredecessors_eq_predecessors (deps : Dict ι (List ι)) (node : ι) :
    filedPredecessors deps.items node = predecessors deps node := by
  unfold predecessors Dict.get?
  have hnodup := deps.nodupKeys
  generalize deps.items = items at hnodup
  induction items with
  | nil => rfl
  | cons item rest ih =>
    rw [map_cons, nodup_cons] at hnodup
    rw [filedPredecessors_cons, List.find?_cons]
    by_cases hnode : item.1 = node
    · subst node
      have hnone : filedPredecessors rest item.1 = [] := by
        unfold filedPredecessors
        rw [flatMap_eq_nil_iff]
        intro other hother
        rw [mem_filter, decide_eq_true_eq] at hother
        exact absurd (mem_map.mpr ⟨other, hother.1, hother.2⟩) hnodup.1
      simp [hnone]
    · simp [hnode, Ne.symm hnode, ih hnodup.2]

theorem buildGraph_inDegree (items : List (ι × List ι)) (graph : DependencyGraph ι) (node : ι) :
    (buildGraph items graph).inDegree node =
      graph.inDegree node + (filedPredecessors items node).length := by
  induction items generalizing graph with
  | nil => simp [buildGraph, filedPredecessors]
  | cons item rest ih =>
    have hrest := ih (item.2.foldl (.addEdge item.1) graph)
    unfold buildGraph at hrest ⊢
    rw [foldl_cons, hrest, foldl_addEdge_inDegree, filedPredecessors_cons]
    by_cases hnode : node = item.1
    · simp [hnode]
      omega
    · simp [hnode]

theorem buildGraph_adjacency (items : List (ι × List ι))
    (graph : DependencyGraph ι) (pred node : ι) :
    ((buildGraph items graph).adjacency pred).count node =
      (graph.adjacency pred).count node + (filedPredecessors items node).count pred := by
  induction items generalizing graph with
  | nil => simp [buildGraph, filedPredecessors]
  | cons item rest ih =>
    have hrest := ih (item.2.foldl (.addEdge item.1) graph)
    unfold buildGraph at hrest ⊢
    rw [foldl_cons, hrest, foldl_addEdge_adjacency, filedPredecessors_cons]
    by_cases hnode : node = item.1
    · simp [hnode]
      omega
    · simp [hnode]

/-! ## One round of the loop -/

theorem foldl_visitNeighbour_degree (visits : List ι) (degree : ι → ℤ)
    (queue : List ι) (node : ι) :
    (visits.foldl visitNeighbour (degree, queue)).1 node = degree node - visits.count node := by
  induction visits generalizing degree queue with
  | nil => simp
  | cons visit rest ih =>
    rw [foldl_cons, visitNeighbour, ih, count_cons]
    by_cases hvisit : visit = node
    · subst visit
      simp
      omega
    · simp [hvisit, Function.update_of_ne (Ne.symm hvisit)]

theorem mem_foldl_visitNeighbour (visits : List ι) (degree : ι → ℤ)
    (queue : List ι) (node : ι) :
    node ∈ (visits.foldl visitNeighbour (degree, queue)).2 ↔
      node ∈ queue ∨ (0 < degree node ∧ degree node ≤ visits.count node) := by
  induction visits generalizing degree queue with
  | nil =>
    rw [foldl_nil, count_nil]
    constructor
    · exact Or.inl
    · intro h
      rcases h with hmem | ⟨hpos, hzero⟩
      · exact hmem
      · omega
  | cons visit rest ih =>
    rw [foldl_cons, visitNeighbour, ih, count_cons]
    by_cases hvisit : visit = node
    · subst visit
      by_cases hone : degree node - 1 = 0
      · have hmem : node ∈ queue ++ [node] := by simp
        simp only [hone, if_true, hmem, true_or, true_iff]
        right
        constructor
        · omega
        · simp
          omega
      · simp only [hone, if_false, Function.update_self, beq_self_eq_true, if_true]
        push_cast
        constructor
        · intro h
          rcases h with hmem | hdegree
          · exact Or.inl hmem
          · exact Or.inr (by omega)
        · intro h
          rcases h with hmem | hdegree
          · exact Or.inl hmem
          · exact Or.inr (by omega)
    · have hne : node ≠ visit := Ne.symm hvisit
      rw [Function.update_of_ne hne]
      by_cases hone : degree visit - 1 = 0 <;> simp [hone, hvisit, hne]

theorem nodup_foldl_visitNeighbour (visits : List ι) (degree : ι → ℤ)
    (queue : List ι) (hnodup : queue.Nodup)
    (hdegree : ∀ node ∈ queue, degree node ≤ 0) :
    (visits.foldl visitNeighbour (degree, queue)).2.Nodup := by
  induction visits generalizing degree queue with
  | nil => exact hnodup
  | cons visit rest ih =>
    rw [foldl_cons, visitNeighbour]
    apply ih
    · dsimp only
      by_cases hone : degree visit - 1 = 0
      · have hfresh : visit ∉ queue := by
          intro hmem
          have := hdegree visit hmem
          omega
        simp only [hone, if_true]
        exact nodup_append.mpr ⟨hnodup, nodup_singleton visit, by
          intro node hnode other hother heq
          rw [mem_singleton] at hother
          exact hfresh (hother ▸ heq ▸ hnode)⟩
      · simpa [hone] using hnodup
    · intro node hmem
      dsimp only at hmem ⊢
      by_cases hvisit : node = visit
      · subst node
        rw [Function.update_self]
        by_cases hone : degree visit - 1 = 0
        · omega
        · simp only [hone, if_false] at hmem
          have := hdegree visit hmem
          omega
      · rw [Function.update_of_ne hvisit]
        apply hdegree
        by_cases hone : degree visit - 1 = 0
        · simpa [hone, hvisit] using hmem
        · simpa [hone] using hmem

theorem sum_count_eq_countP (layer preds : List ι) (hnodup : layer.Nodup) :
    (layer.map fun node => preds.count node).sum =
      preds.countP (fun pred => decide (pred ∈ layer)) := by
  induction preds with
  | nil => simp
  | cons pred rest ih =>
    have hhead : (layer.map fun node => (pred :: rest).count node).sum =
          (layer.map fun node => rest.count node).sum + layer.count pred := by
      clear ih hnodup
      induction layer with
      | nil => simp
      | cons node layer ih =>
        rw [map_cons, sum_cons, ih, map_cons, sum_cons, count_cons, count_cons]
        by_cases hnode : pred = node
        · subst pred
          simp
          omega
        · simp [hnode, Ne.symm hnode]
          omega
    rw [hhead, ih, countP_cons, hnodup.count]
    by_cases hmem : pred ∈ layer <;> simp [hmem]

/-! ## The loop invariant -/

/-- Between two rounds: `processed` is closed under predecessors, in-degrees
count unprocessed predecessors, and the queue holds what is ready. -/
structure KahnState (deps : Dict ι (List ι)) (processed : List ι)
    (inDegree : ι → ℤ) (queue : List ι) : Prop where
  processed_nodup : processed.Nodup
  processed_keys : ∀ node ∈ processed, node ∈ deps.keys
  closed : ∀ node ∈ processed, ∀ pred ∈ predecessors deps node, pred ∈ processed
  degree : ∀ node, inDegree node =
    (predecessors deps node).countP fun pred => decide (pred ∉ processed)
  queue_nodup : queue.Nodup
  mem_queue : ∀ node, node ∈ queue ↔ node ∈ deps.keys ∧ node ∉ processed ∧
      ∀ pred ∈ predecessors deps node, pred ∈ processed

theorem countP_notMem_eq_zero_iff (preds processed : List ι) :
    (preds.countP fun pred => decide (pred ∉ processed)) = 0 ↔
      ∀ pred ∈ preds, pred ∈ processed := by
  rw [countP_eq_zero]
  simp

variable {deps : Dict ι (List ι)} {graph : DependencyGraph ι}

/-- Visiting the neighbours of a duplicate-free layer lowers the in-degree of
a node by the number of its predecessor entries inside the layer. -/
theorem expandLayer_count (hgraph : graph = buildGraph deps.items ⟨fun _ => 0, fun _ => []⟩)
    (layer : List ι) (hnodup : layer.Nodup) (node : ι) :
    (layer.flatMap graph.adjacency).count node =
      (predecessors deps node).countP fun pred => decide (pred ∈ layer) := by
  have hadjacency : ∀ pred, (graph.adjacency pred).count node =
        (predecessors deps node).count pred := by
    intro pred
    rw [hgraph, buildGraph_adjacency, filedPredecessors_eq_predecessors]
    simp
  rw [count_flatMap, ← sum_count_eq_countP layer _ hnodup]
  congr 1
  apply map_congr_left
  intro pred _
  exact hadjacency pred

theorem countP_append_layer (preds processed layer : List ι)
    (hdisjoint : ∀ node ∈ layer, node ∉ processed) :
    (preds.countP fun pred => decide (pred ∉ processed)) =
      (preds.countP fun pred => decide (pred ∉ processed ++ layer)) +
        preds.countP fun pred => decide (pred ∈ layer) := by
  induction preds with
  | nil => simp
  | cons pred rest ih =>
    rw [countP_cons, countP_cons, countP_cons, ih]
    by_cases hlayer : pred ∈ layer
    · have := hdisjoint pred hlayer
      simp [hlayer, this]
      omega
    · by_cases hprocessed : pred ∈ processed
      · simp [hlayer, hprocessed]
      · simp [hlayer, hprocessed]
        omega

variable {node : ι}

theorem predecessors_eq_nil_of_notMem (h : node ∉ deps.keys) : predecessors deps node = [] := by
  rw [predecessors, Dict.get?_eq_none_iff.mpr h]
  rfl

theorem mem_keys_of_mem_predecessors {deps : Dict ι (List ι)} {pred node : ι}
    (h : pred ∈ predecessors deps node) : node ∈ deps.keys := by
  by_contra hnot
  rw [predecessors_eq_nil_of_notMem hnot] at h
  cases h

variable {processed : List ι} {inDegree : ι → ℤ}

/-- One round turns the invariant for `processed` into the invariant for
`processed` extended by the layer. -/
theorem KahnState.expandLayer (hgraph : graph = buildGraph deps.items ⟨fun _ => 0, fun _ => []⟩)
    {queue layer : List ι} (hstate : KahnState deps processed inDegree queue)
    (hlayer : layer.Perm queue) :
    KahnState deps (processed ++ layer) (Saga.expandLayer graph.adjacency inDegree layer).1
      ((Saga.expandLayer graph.adjacency inDegree layer).2.insertionSort (· ≤ ·)) := by
  have hnodup : layer.Nodup := hlayer.nodup_iff.mpr hstate.queue_nodup
  have hmemLayer : ∀ node, node ∈ layer ↔ node ∈ deps.keys ∧ node ∉ processed ∧
        ∀ pred ∈ predecessors deps node, pred ∈ processed := by
    intro node
    rw [hlayer.mem_iff]
    exact hstate.mem_queue node
  have hdisjoint : ∀ node ∈ layer, node ∉ processed :=
    fun node hnode => ((hmemLayer node).mp hnode).2.1
  have hvisits := expandLayer_count hgraph layer hnodup
  have hsplit := fun node => countP_append_layer (predecessors deps node)
    processed layer hdisjoint
  have hdegree : ∀ node, (Saga.expandLayer graph.adjacency inDegree layer).1 node =
        (predecessors deps node).countP fun pred =>
          decide (pred ∉ processed ++ layer) := by
    intro node
    rw [Saga.expandLayer, foldl_visitNeighbour_degree, hstate.degree, hvisits, hsplit node]
    omega
  refine ⟨?_, ?_, ?_, hdegree, ?_, ?_⟩
  · exact nodup_append.mpr ⟨hstate.processed_nodup, hnodup, by
      intro node hnode other hother heq
      exact hdisjoint other hother (heq ▸ hnode)⟩
  · intro node hnode
    rcases mem_append.mp hnode with hold | hnew
    · exact hstate.processed_keys node hold
    · exact ((hmemLayer node).mp hnew).1
  · intro node hnode pred hpred
    rcases mem_append.mp hnode with hold | hnew
    · exact mem_append_left _ (hstate.closed node hold pred hpred)
    · exact mem_append_left _ (((hmemLayer node).mp hnew).2.2 pred hpred)
  · rw [(perm_insertionSort _ _).nodup_iff]
    exact nodup_foldl_visitNeighbour _ _ _ nodup_nil (by simp)
  · intro node
    rw [mem_insertionSort, Saga.expandLayer, mem_foldl_visitNeighbour, hstate.degree, hvisits]
    have hready := countP_notMem_eq_zero_iff (predecessors deps node) (processed ++ layer)
    have hold := countP_notMem_eq_zero_iff (predecessors deps node) processed
    have hcount := hsplit node
    constructor
    · intro h
      rcases h with hnil | ⟨hpos, hle⟩
      · simp at hnil
      · have hnotReady : ¬ ∀ pred ∈ predecessors deps node, pred ∈ processed := by
          intro hall
          rw [hold.mpr hall] at hpos
          omega
        refine ⟨?_, ?_, hready.mp (by omega)⟩
        · by_contra hkey
          rw [predecessors_eq_nil_of_notMem hkey] at hnotReady
          simp at hnotReady
        · intro hmem
          rcases mem_append.mp hmem with hprocessed | hnew
          · exact hnotReady (hstate.closed node hprocessed)
          · exact hnotReady ((hmemLayer node).mp hnew).2.2
    · intro h
      rcases h with ⟨hkey, hfresh, hall⟩
      rw [mem_append, not_or] at hfresh
      have hnotReady : ¬ ∀ pred ∈ predecessors deps node, pred ∈ processed := by
        intro hall'
        exact hfresh.2 ((hmemLayer node).mpr ⟨hkey, hfresh.1, hall'⟩)
      have hzero := hready.mpr hall
      have hne := mt hold.mp hnotReady
      right
      omega

theorem KahnState.stuck_of_nil (hstate : KahnState deps processed inDegree []) :
    ∀ node ∈ deps.keys, node ∉ processed →
      ∃ pred ∈ predecessors deps node, pred ∉ processed := by
  intro node hkey hfresh
  by_contra hnone
  push Not at hnone
  have hmem := (hstate.mem_queue node).mpr ⟨hkey, hfresh, hnone⟩
  simp at hmem

structure Layering (deps : Dict ι (List ι)) (processed : List ι)
    (layers : List (List ι)) : Prop where
  nodup : (processed ++ layers.flatten).Nodup
  keys : ∀ node ∈ layers.flatten, node ∈ deps.keys
  nonempty : ∀ layer ∈ layers, layer ≠ []
  sorted : ∀ layer ∈ layers, layer.Pairwise (· ≤ ·)
  ordered : ∀ before layer after, layers = before ++ layer :: after →
    ∀ node ∈ layer, ∀ pred ∈ predecessors deps node, pred ∈ processed ++ before.flatten
  stuck : ∀ node ∈ deps.keys, node ∉ processed ++ layers.flatten →
    ∃ pred ∈ predecessors deps node, pred ∉ processed ++ layers.flatten

theorem peelLayers_layering (hgraph : graph = buildGraph deps.items ⟨fun _ => 0, fun _ => []⟩)
    (fuel : ℕ) {queue : List ι}
    (hstate : KahnState deps processed inDegree queue)
    (hfuel : deps.keys.length ≤ processed.length + fuel) :
    Layering deps processed (peelLayers graph.adjacency fuel inDegree queue) := by
  induction fuel generalizing processed queue inDegree with
  | zero =>
    have hperm : processed.Perm deps.keys := by
      apply (subperm_of_subset hstate.processed_nodup hstate.processed_keys).perm_of_length_le
      simpa using hfuel
    refine ⟨by simpa [peelLayers] using hstate.processed_nodup,
      by simp [peelLayers], by simp [peelLayers], by simp [peelLayers],
      by simp [peelLayers], ?_⟩
    intro node hkey hfresh
    exact absurd (hperm.mem_iff.mpr hkey) (by simpa [peelLayers] using hfresh)
  | succ fuel ih =>
    cases queue with
    | nil =>
      refine ⟨by simpa [peelLayers] using hstate.processed_nodup,
        by simp [peelLayers], by simp [peelLayers], by simp [peelLayers],
        by simp [peelLayers], ?_⟩
      simpa [peelLayers] using hstate.stuck_of_nil
    | cons first rest =>
      let layer := (first :: rest).insertionSort (· ≤ ·)
      have hperm : layer.Perm (first :: rest) :=
        perm_insertionSort _ _
      have hnext := hstate.expandLayer hgraph hperm
      have hlength : 0 < layer.length := by
        rw [hperm.length_eq]
        simp
      have hrest := ih hnext (by
        rw [length_append]
        omega)
      have hpeel : peelLayers graph.adjacency (fuel + 1) inDegree (first :: rest) =
            layer :: peelLayers graph.adjacency fuel
              (Saga.expandLayer graph.adjacency inDegree layer).1
              ((Saga.expandLayer graph.adjacency inDegree layer).2.insertionSort (· ≤ ·)) := rfl
      rw [hpeel]
      have hready : ∀ node ∈ layer, node ∈ deps.keys ∧
          ∀ pred ∈ predecessors deps node, pred ∈ processed := by
        intro node hnode
        have hmem := (hstate.mem_queue node).mp (hperm.mem_iff.mp hnode)
        exact ⟨hmem.1, hmem.2.2⟩
      refine ⟨?_, ?_, ?_, ?_, ?_, ?_⟩
      · simpa [append_assoc] using hrest.nodup
      · intro node hnode
        rw [flatten_cons, mem_append] at hnode
        rcases hnode with hlayer | hlater
        · exact (hready node hlayer).1
        · exact hrest.keys node hlater
      · intro other hother
        rcases mem_cons.mp hother with heq | hlater
        · subst other
          exact ne_nil_of_length_pos hlength
        · exact hrest.nonempty other hlater
      · intro other hother
        rcases mem_cons.mp hother with heq | hlater
        · subst other
          exact pairwise_insertionSort _ _
        · exact hrest.sorted other hlater
      · intro before other after hsplit node hnode pred hpred
        cases before with
        | nil =>
          simp only [nil_append, List.cons.injEq] at hsplit
          have hlayer : node ∈ layer := hsplit.1 ▸ hnode
          simpa using (hready node hlayer).2 pred hpred
        | cons head before =>
          simp only [cons_append, List.cons.injEq] at hsplit
          have hmem := hrest.ordered before other after hsplit.2 node hnode pred hpred
          rw [← hsplit.1]
          simpa [append_assoc] using hmem
      · intro node hkey hfresh
        simpa [append_assoc] using hrest.stuck node hkey (by
            simpa [append_assoc] using hfresh)

/-! ## Correctness of `computeLayers` -/

theorem kahnState_initial (deps : Dict ι (List ι)) :
    let graph := buildGraph deps.items ⟨fun _ => 0, fun _ => []⟩
    KahnState deps [] graph.inDegree ((deps.keys.filter fun node =>
        graph.inDegree node = 0).insertionSort (· ≤ ·)) := by
  intro graph
  have hdegree : ∀ node, graph.inDegree node = ((predecessors deps node).length : ℤ) := by
    intro node
    rw [buildGraph_inDegree, filedPredecessors_eq_predecessors]
    simp
  refine ⟨nodup_nil, by simp, by simp, ?_, ?_, ?_⟩
  · intro node
    rw [hdegree]
    simp
  · rw [(perm_insertionSort _ _).nodup_iff]
    exact deps.keys_nodup.filter _
  · intro node
    rw [mem_insertionSort, mem_filter, decide_eq_true_eq,
      hdegree, Int.natCast_eq_zero, length_eq_zero_iff]
    simp [eq_nil_iff_forall_not_mem]

theorem computeLayers_layering {layers : List (List ι)} (h : computeLayers deps = .ok layers) :
    Layering deps [] layers ∧ layers.flatten.Perm deps.keys := by
  unfold computeLayers at h
  split at h
  · next hempty =>
      simp only [Except.ok.injEq] at h
      subst layers
      have hkeys : deps.keys = [] := by simp [Dict.keys, hempty]
      rw [hkeys]
      exact ⟨⟨by simp, by simp, by simp, by simp, by simp, by simp [hkeys]⟩,
        by simp⟩
  · dsimp only at h
    split at h
    · simp at h
    · next hcount =>
        simp only [Except.ok.injEq] at h
        have hlayering := peelLayers_layering rfl deps.items.length
          (kahnState_initial deps) (by simp [Dict.keys])
        rw [h] at hlayering
        rw [h, ne_eq, not_not] at hcount
        refine ⟨hlayering, ?_⟩
        apply (subperm_of_subset (by simpa using hlayering.nodup)
          hlayering.keys).perm_of_length_le
        simp [Dict.keys, hcount]

def layerIndex {ι : Type} [DecidableEq ι] (layers : List (List ι)) (node : ι) : ℕ :=
  layers.findIdx fun layer => decide (node ∈ layer)

variable {i : ℕ}

theorem layerIndex_le_of_mem {layers : List (List ι)} (hi : i < layers.length)
    (hmem : node ∈ layers[i]) :
    layerIndex layers node ≤ i := by
  by_contra hlt
  have hnot := not_of_lt_findIdx (Nat.lt_of_not_ge hlt)
  simp [hmem] at hnot

/-- The layers are disjoint: a node of the `i`-th layer has index `i`. -/
theorem layerIndex_eq_of_mem {layers : List (List ι)}
    (hnodup : layers.flatten.Nodup) (hi : i < layers.length)
    (hmem : node ∈ layers[i]) :
    layerIndex layers node = i := by
  have hle := layerIndex_le_of_mem hi hmem
  have hlt : layerIndex layers node < layers.length := by omega
  have hfound :=
    @findIdx_getElem _ (fun layer => decide (node ∈ layer)) layers hlt
  have hfoundMem : node ∈ layers[layerIndex layers node] :=
    of_decide_eq_true hfound
  by_contra hne
  have hdisjoint := (nodup_flatten.mp hnodup).2
  rw [pairwise_iff_getElem] at hdisjoint
  exact hdisjoint _ i hlt hi (by omega) hfoundMem hmem

theorem mem_getD_iff {layers : List (List ι)} (hnodup : layers.flatten.Nodup) :
    node ∈ layers.getD i [] ↔ node ∈ layers.flatten ∧ layerIndex layers node = i := by
  constructor
  · intro hmem
    by_cases hi : i < layers.length
    · rw [getD_eq_getElem _ _ hi] at hmem
      exact ⟨mem_flatten.mpr ⟨_, getElem_mem hi, hmem⟩, layerIndex_eq_of_mem hnodup hi hmem⟩
    · rw [getD_eq_default _ _ (Nat.le_of_not_lt hi)] at hmem
      cases hmem
  · intro h
    rcases h with ⟨hmem, hindex⟩
    obtain ⟨layer, hlayer, hnode⟩ := mem_flatten.mp hmem
    obtain ⟨j, hj, rfl⟩ := mem_iff_getElem.mp hlayer
    have hsame := layerIndex_eq_of_mem hnodup hj hnode
    have hij : j = i := hsame.symm.trans hindex
    subst hij
    rw [getD_eq_getElem _ _ hj]
    exact hnode

theorem layerIndex_lt_length {layers : List (List ι)} (hmem : node ∈ layers.flatten) :
    layerIndex layers node < layers.length := by
  obtain ⟨layer, hlayer, hnode⟩ := mem_flatten.mp hmem
  exact findIdx_lt_length_of_exists ⟨layer, hlayer, decide_eq_true hnode⟩

theorem Layering.layerIndex_lt {layers : List (List ι)}
    (hlayering : Layering deps [] layers) {pred : ι}
    (hnode : node ∈ layers.flatten) (hpred : pred ∈ predecessors deps node) :
    layerIndex layers pred < layerIndex layers node := by
  have hlt := layerIndex_lt_length hnode
  have hmem : node ∈ layers[layerIndex layers node] := by
    have hfound :=
      @findIdx_getElem _ (fun layer => decide (node ∈ layer)) layers hlt
    exact of_decide_eq_true hfound
  have hsplit : layers = layers.take (layerIndex layers node) ++
      layers[layerIndex layers node] :: layers.drop (layerIndex layers node + 1) := by
    simp
  have hearlier := hlayering.ordered _ _ _ hsplit node hmem pred hpred
  rw [nil_append, mem_flatten] at hearlier
  obtain ⟨layer, hlayer, hmemPred⟩ := hearlier
  obtain ⟨i, hi, rfl⟩ := mem_iff_getElem.mp hlayer
  rw [length_take] at hi
  rw [getElem_take] at hmemPred
  have := layerIndex_le_of_mem (by omega) hmemPred
  omega

/-- `compute_layers` returns exactly when every predecessor is a key and the
dependency relation has no cycle. -/
theorem computeLayers_isOk_iff (deps : Dict ι (List ι)) :
    (∃ layers, computeLayers deps = .ok layers) ↔
      (∀ node, ∀ pred ∈ predecessors deps node, pred ∈ deps.keys) ∧ ∀ node, ¬ Relation.TransGen
          (fun pred node => pred ∈ predecessors deps node) node node := by
  constructor
  · intro h
    obtain ⟨layers, hlayers⟩ := h
    obtain ⟨hlayering, hperm⟩ := computeLayers_layering hlayers
    have hkey : ∀ node, ∀ pred ∈ predecessors deps node,
        node ∈ layers.flatten := fun node pred hpred =>
      hperm.mem_iff.mpr (mem_keys_of_mem_predecessors hpred)
    constructor
    · intro node pred hpred
      have hindex := hlayering.layerIndex_lt (hkey node pred hpred) hpred
      rw [← hperm.mem_iff]
      by_contra hnot
      have hmax : layerIndex layers pred = layers.length := by
        apply findIdx_eq_length.mpr
        intro layer hlayer
        have : pred ∉ layer := fun hmem =>
          hnot (mem_flatten.mpr ⟨layer, hlayer, hmem⟩)
        simpa using this
      have hbound : layerIndex layers node ≤ layers.length :=
        findIdx_le_length
      omega
    · exact acyclic_of_rank_lt (layerIndex layers) fun pred node hpred =>
        hlayering.layerIndex_lt (hkey node pred hpred) hpred
  · intro h
    rcases h with ⟨hexist, hacyclic⟩
    unfold computeLayers
    by_cases hempty : deps.items = []
    · exact ⟨[], by simp [hempty]⟩
    · rw [if_neg hempty]
      have hlayering := peelLayers_layering rfl deps.items.length
        (kahnState_initial deps) (by simp [Dict.keys])
      dsimp only
      generalize peelLayers (buildGraph deps.items _).adjacency _ _ _ = layers at hlayering ⊢
      have hall : ∀ node ∈ deps.keys, node ∈ layers.flatten := by
        refine forall_mem_of_acyclic hacyclic (p := fun node => node ∈ layers.flatten) ?_
        intro node hkey ih
        by_contra hnot
        obtain ⟨pred, hpred, hfresh⟩ :=
          hlayering.stuck node hkey (by simpa using hnot)
        apply hfresh
        simpa using ih pred (hexist node pred hpred) hpred
      have hperm : layers.flatten.Perm deps.keys :=
        (perm_ext_iff_of_nodup (by simpa using hlayering.nodup)
          deps.keys_nodup).mpr fun node =>
            ⟨hlayering.keys node, hall node⟩
      refine ⟨layers, ?_⟩
      rw [if_neg]
      simpa [Dict.keys] using hperm.length_eq

/-! ## Layers of a saga -/

variable {saga : SagaDefinition ι} {dependency step : ι}

theorem dependsOn_iff_mem_predecessors : saga.DependsOn dependency step ↔
      dependency ∈ predecessors saga.deps step := by
  unfold SagaDefinition.DependsOn predecessors SagaDefinition.deps
  rw [Dict.get?_mapValues]
  cases saga.steps.get? step with
  | none => simp
  | some stepDef => simp

theorem SagaDefinition.Valid.layers (hvalid : saga.Valid) :
    ∃ layers, computeLayers saga.deps = .ok layers := by
  have hrelation : saga.DependsOn = fun pred node => pred ∈ predecessors saga.deps node := by
    funext pred node
    exact propext dependsOn_iff_mem_predecessors
  rw [computeLayers_isOk_iff, SagaDefinition.keys_deps]
  constructor
  · intro node pred hpred
    exact hvalid.exist pred node (dependsOn_iff_mem_predecessors.mpr hpred)
  · intro node
    rw [← hrelation]
    exact hvalid.acyclic node

theorem layerIndex_lt_of_depends {layers : List (List ι)}
    (hlayers : computeLayers saga.deps = .ok layers)
    (hdepends : Relation.TransGen saga.DependsOn dependency step) :
    layerIndex layers dependency < layerIndex layers step := by
  obtain ⟨hlayering, hperm⟩ := computeLayers_layering hlayers
  have hdirect : ∀ dependency step, saga.DependsOn dependency step →
      layerIndex layers dependency < layerIndex layers step := by
    intro dependency step hdepends
    apply hlayering.layerIndex_lt
    · rw [hperm.mem_iff, SagaDefinition.keys_deps]
      obtain ⟨stepDef, hget, _⟩ := hdepends
      exact Dict.mem_keys_of_get? hget
    · exact dependsOn_iff_mem_predecessors.mp hdepends
  induction hdepends with
  | single hstep => exact hdirect _ _ hstep
  | tail _ hstep ih => exact ih.trans (hdirect _ _ hstep)

theorem mem_stepIds_of_depends (hvalid : saga.Valid)
    (hdepends : Relation.TransGen saga.DependsOn dependency step) :
    dependency ∈ saga.stepIds := by
  cases hdepends using Relation.TransGen.head_induction_on with
  | single hstep => exact hvalid.exist _ _ hstep
  | head hstep _ => exact hvalid.exist _ _ hstep

end PyFly.Saga
