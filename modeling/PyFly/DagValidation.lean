import PyFly.LayerDepths

/-!
# The validation of saga definitions

`SagaRegistry` and `SagaBuilder` validate the dependencies of a saga by Kahn's
algorithm over a single queue.  The in-degree of a step counts the entries of
its dependency list, while a step which leaves the queue lowers it by one,
however often the list mentions that step.
-/

namespace PyFly.Saga

open Library List

variable {ι : Type} [LinearOrder ι]

inductive SagaValidationError (ι : Type)
  | nonexistent (step : ι) (saga : String) (dependency : ι)
  | cycle (saga : String) (processed total : ℕ)
  deriving DecidableEq

/-- The first `depends_on` entry which is no step id, with its step. -/
def missingReference {κ : Type} [DecidableEq κ] (saga : SagaDefinition κ) :
    Option (κ × κ) :=
  saga.steps.items.findSome? fun item =>
    (item.2.dependsOn.find? fun dep => dep ∉ saga.stepIds).map fun dep => (item.1, dep)

def countEntries (saga : SagaDefinition ι) : ι → ℤ :=
  saga.steps.items.foldl (fun inDegree item =>
    item.2.dependsOn.foldl (fun inDegree _ =>
      Function.update inDegree item.2.id (inDegree item.2.id + 1)) inDegree)
    fun _ => 0

/-- The `for` loop over the steps which depend on `current`. -/
def visitDependents (saga : SagaDefinition ι) (current : ι)
    (state : (ι → ℤ) × List ι) : (ι → ℤ) × List ι :=
  saga.steps.items.foldl (fun state item =>
    if item.2.dependsOn.contains current then visitNeighbour state item.2.id
    else state) state

/-- The steps in the order in which they leave the queue, with one unit of
fuel for each. -/
def drainQueue (saga : SagaDefinition ι) : ℕ → (ι → ℤ) → List ι → List ι
  | 0, _, _ => []
  | _ + 1, _, [] => []
  | fuel + 1, inDegree, current :: queue =>
    let next := visitDependents saga current (inDegree, queue)
    current :: drainQueue saga fuel next.1 next.2

/-- The text of both `_validate_dag`; `order` is the iteration order of the
set of step ids. -/
def validateDag (order : List ι) (saga : SagaDefinition ι) :
    Except (SagaValidationError ι) Unit :=
  match missingReference saga with
  | some (step, dep) => .error (.nonexistent step saga.name dep)
  | none =>
    let inDegree := countEntries saga
    let processed := (drainQueue saga order.length inDegree
      (order.filter fun sid => inDegree sid = 0)).length
    if processed ≠ order.length then
      .error (.cycle saga.name processed order.length)
    else .ok ()

def SagaRegistry.validateDag (order : List ι) (saga : SagaDefinition ι) :
    Except (SagaValidationError ι) Unit :=
  Saga.validateDag order saga

def SagaBuilder.validateDag (order : List ι) (saga : SagaDefinition ι) :
    Except (SagaValidationError ι) Unit :=
  Saga.validateDag order saga

/-! ## In-degrees -/

variable {saga : SagaDefinition ι} {order : List ι}

theorem mem_predecessors_deps {node dep : ι} : dep ∈ predecessors saga.deps node ↔
      ∃ item ∈ saga.steps.items, item.1 = node ∧ dep ∈ item.2.dependsOn := by
  rw [← dependsOn_iff_mem_predecessors]
  constructor
  · rintro ⟨stepDef, hget, hdep⟩
    exact ⟨_, Dict.get?_eq_some_iff.mp hget, rfl, hdep⟩
  · rintro ⟨item, hitem, rfl, hdep⟩
    exact ⟨item.2, Dict.get?_eq_some_iff.mpr hitem, hdep⟩

theorem missingReference_eq_none : missingReference saga = none ↔
      ∀ node, ∀ dep ∈ predecessors saga.deps node, dep ∈ saga.stepIds := by
  simp only [missingReference, List.findSome?_eq_none_iff,
    Option.map_eq_none_iff, List.find?_eq_none, decide_eq_true_eq, not_not,
    mem_predecessors_deps]
  constructor
  · rintro h node dep ⟨item, hitem, -, hdep⟩
    exact h item hitem dep hdep
  · intro h item hitem dep hdep
    exact h item.1 dep ⟨item, hitem, rfl, hdep⟩

theorem countEntries_eq (node : ι) :
    countEntries saga node = (predecessors saga.deps node).length := by
  have hentries : ∀ (step : ι) (entries : List ι) (graph : DependencyGraph ι),
      entries.foldl (fun inDegree _ => Function.update inDegree step
        (inDegree step + 1)) graph.inDegree =
      (entries.foldl (.addEdge step) graph).inDegree := by
    intro step entries
    induction entries with
    | nil => exact fun _ => rfl
    | cons entry rest ih => exact fun graph => ih (graph.addEdge step entry)
  have hitems : ∀ (items : List (ι × StepDefinition ι))
      (graph : DependencyGraph ι), (∀ item ∈ items, item.2.id = item.1) →
      items.foldl (fun inDegree item =>
        item.2.dependsOn.foldl (fun inDegree _ => Function.update inDegree
          item.2.id (inDegree item.2.id + 1)) inDegree) graph.inDegree =
      (buildGraph (items.map fun item => (item.1, item.2.dependsOn)) graph).inDegree := by
    intro items
    induction items with
    | nil => exact fun _ _ => rfl
    | cons item rest ih =>
      intro graph hfiled
      rw [foldl_cons, hentries, ih _ fun other hother =>
        hfiled other (mem_cons_of_mem _ hother),
        hfiled item mem_cons_self]
      rfl
  have hgraph := hitems _ ⟨fun _ => 0, fun _ => []⟩ saga.filedById
  rw [← filedPredecessors_eq_predecessors, countEntries, hgraph,
    buildGraph_inDegree, Int.zero_add]
  rfl

theorem visitDependents_eq (current : ι) (state : (ι → ℤ) × List ι) :
    visitDependents saga current state = (saga.stepIds.filter fun node =>
        current ∈ predecessors saga.deps node).foldl visitNeighbour state := by
  have hmem : ∀ item ∈ saga.steps.items, (current ∈ item.2.dependsOn ↔
        current ∈ predecessors saga.deps item.1) := by
    intro item hitem
    rw [predecessors, SagaDefinition.deps, Dict.get?_mapValues, Dict.get?_eq_some_iff.mpr hitem]
    rfl
  unfold visitDependents SagaDefinition.stepIds Dict.keys
  have hfiled := saga.filedById
  generalize saga.steps.items = items at hmem hfiled
  induction items generalizing state with
  | nil => rfl
  | cons item rest ih =>
    rw [foldl_cons, map_cons, filter_cons,
      ih _ (fun other hother => hmem other (mem_cons_of_mem _ hother))
        fun other hother => hfiled other (mem_cons_of_mem _ hother)]
    have hhead := hmem item mem_cons_self
    by_cases hcurrent : current ∈ item.2.dependsOn
    · rw [if_pos (contains_iff_mem.mpr hcurrent), if_pos (decide_eq_true (hhead.mp hcurrent)),
        hfiled item mem_cons_self]
      rfl
    · rw [if_neg (mt contains_iff_mem.mp hcurrent),
        if_neg (by simpa using mt hhead.mpr hcurrent)]

/-- A list which is no longer than the number of its members among distinct
nodes has no other members, and each of them once. -/
theorem filter_mem_perm {nodes entries : List ι} (hnodup : nodes.Nodup)
    (hlength : entries.length ≤ nodes.countP fun node => node ∈ entries) :
    (nodes.filter fun node => node ∈ entries).Perm entries := by
  rw [countP_eq_length_filter] at hlength
  refine (subperm_of_subset (hnodup.filter _) ?_).perm_of_length_le hlength
  intro node hnode
  exact of_decide_eq_true (mem_filter.mp hnode).2

theorem countP_mem_eq_length {nodes entries : List ι} (hnodup : nodes.Nodup)
    (hentries : entries.Nodup) (hsub : ∀ entry ∈ entries, entry ∈ nodes) :
    nodes.countP (fun node => node ∈ entries) = entries.length := by
  rw [countP_eq_length_filter]
  refine ((perm_ext_iff_of_nodup (hnodup.filter _) hentries).mpr fun node => ?_).length_eq
  rw [mem_filter, decide_eq_true_eq]
  exact and_iff_right_of_imp (hsub node)

/-! ## The loop invariant -/

/-- The steps in `processed` have left the queue. -/
structure DrainState (saga : SagaDefinition ι) (processed : List ι)
    (inDegree : ι → ℤ) (queue : List ι) : Prop where
  nodup : (processed ++ queue).Nodup
  known : ∀ node ∈ processed ++ queue, node ∈ saga.stepIds
  degree : ∀ node, inDegree node = (predecessors saga.deps node).length -
    (processed.countP fun other => other ∈ predecessors saga.deps node : ℤ)
  closed : ∀ node ∈ processed ++ queue, ∀ dep ∈ predecessors saga.deps node, dep ∈ processed
  ready : ∀ node ∈ saga.stepIds, (node ∈ processed ++ queue ↔ inDegree node = 0)
  acyclic : ∀ node ∈ processed, ¬ Relation.TransGen
    (fun dep node => dep ∈ predecessors saga.deps node) node node

theorem drainState_initial (horder : order.Perm saga.stepIds) :
    DrainState saga [] (countEntries saga)
      (order.filter fun sid => countEntries saga sid = 0) := by
  have hmem : ∀ node, node ∈ order.filter (fun sid =>
      countEntries saga sid = 0) ↔ node ∈ saga.stepIds ∧ countEntries saga node = 0 := by
    intro node
    rw [mem_filter, horder.mem_iff, decide_eq_true_eq]
  refine ⟨?_, ?_, ?_, ?_, ?_, by simp⟩
  · exact ((horder.nodup_iff.mpr saga.stepIds_nodup).filter _)
  · intro node hnode
    exact ((hmem node).mp hnode).1
  · intro node
    simp [countEntries_eq]
  · intro node hnode dep hdep
    have hzero := ((hmem node).mp hnode).2
    rw [countEntries_eq, Int.natCast_eq_zero, length_eq_zero_iff] at hzero
    rw [hzero] at hdep
    cases hdep
  · intro node hnode
    rw [nil_append, hmem, and_iff_right hnode]

variable {processed queue : List ι} {inDegree : ι → ℤ} {current : ι}

theorem DrainState.mem_of_transGen
    (hstate : DrainState saga processed inDegree queue) {first last : ι}
    (hlast : last ∈ processed ++ queue)
    (hchain : Relation.TransGen
      (fun dep node => dep ∈ predecessors saga.deps node) first last) :
    first ∈ processed := by
  induction hchain using Relation.TransGen.head_induction_on with
  | single hdep => exact hstate.closed _ hlast _ hdep
  | head hdep _ ih =>
    exact hstate.closed _ (mem_append_left _ ih) _ hdep

theorem DrainState.next (hstate : DrainState saga processed inDegree (current :: queue)) :
    DrainState saga (processed ++ [current]) (visitDependents saga current (inDegree, queue)).1
      (visitDependents saga current (inDegree, queue)).2 := by
  have hsplit : processed ++ [current] ++ queue = processed ++ current :: queue := by simp
  have hnodup : (processed ++ [current]).Nodup := by
    refine hstate.nodup.sublist ?_
    rw [← hsplit]
    exact sublist_append_left _ _
  have hcurrent : current ∈ processed ++ current :: queue := by simp
  have hfresh : current ∉ processed := by
    intro hmem
    exact (nodup_append.mp hstate.nodup).2.2 current hmem current mem_cons_self rfl
  have hkey : ∀ node, current ∈ predecessors saga.deps node →
      node ∈ saga.stepIds := fun node hdep =>
    saga.keys_deps ▸ mem_keys_of_mem_predecessors hdep
  have hvisits : ∀ node, (saga.stepIds.filter fun node =>
      current ∈ predecessors saga.deps node).count node =
        if current ∈ predecessors saga.deps node then 1 else 0 := by
    intro node
    split
    · next hdep =>
        exact count_eq_one_of_mem (saga.stepIds_nodup.filter _)
          (mem_filter.mpr ⟨hkey node hdep, decide_eq_true hdep⟩)
    · next hdep =>
        refine count_eq_zero_of_not_mem fun hmem => hdep ?_
        exact of_decide_eq_true (mem_filter.mp hmem).2
  have hdegree : ∀ node,
      (visitDependents saga current (inDegree, queue)).1 node = inDegree node -
          if current ∈ predecessors saga.deps node then 1 else 0 := by
    intro node
    rw [visitDependents_eq, foldl_visitNeighbour_degree, hvisits]
    push_cast
    rfl
  have hmem : ∀ node, node ∈ (visitDependents saga current (inDegree, queue)).2 ↔
        node ∈ queue ∨ (inDegree node = 1 ∧ current ∈ predecessors saga.deps node) := by
    intro node
    rw [visitDependents_eq, mem_foldl_visitNeighbour, hvisits]
    refine or_congr_right ?_
    split
    · next hdep =>
        simp [hdep]
        omega
    · next hdep => simp [hdep]
  have hold : ∀ node ∈ processed ++ current :: queue,
      inDegree node = 0 ∧ current ∉ predecessors saga.deps node :=
    fun node hnode => ⟨(hstate.ready node (hstate.known node hnode)).mp hnode,
      fun hdep => hfresh (hstate.closed node hnode current hdep)⟩
  have hcount : ∀ node, (visitDependents saga current (inDegree, queue)).1 node =
        (predecessors saga.deps node).length - ((processed ++ [current]).countP fun other =>
            other ∈ predecessors saga.deps node : ℤ) := by
    intro node
    rw [hdegree, hstate.degree, countP_append, countP_singleton]
    by_cases hdep : current ∈ predecessors saga.deps node
    · simp [hdep]
      omega
    · simp [hdep]
  have hall : ∀ node, node ∈ processed ++ [current] ++
      (visitDependents saga current (inDegree, queue)).2 ↔
        node ∈ processed ++ current :: queue ∨ (inDegree node = 1 ∧
          current ∈ predecessors saga.deps node) := by
    intro node
    rw [mem_append, hmem, ← or_assoc, ← mem_append, hsplit]
  refine ⟨?_, ?_, hcount, ?_, ?_, ?_⟩
  · refine nodup_append.mpr ⟨hnodup, ?_, ?_⟩
    · rw [visitDependents_eq]
      refine nodup_foldl_visitNeighbour _ _ _ ?_ fun node hnode => ?_
      · exact (nodup_append.mp
          (hsplit ▸ hstate.nodup : (processed ++ [current] ++ queue).Nodup)).2.1
      · exact (hold node (by simp [hnode])).1.le
    · rintro node hnode other hother rfl
      rcases (hmem node).mp hother with hqueue | hnew
      · exact (nodup_append.mp (hsplit ▸ hstate.nodup :
          (processed ++ [current] ++ queue).Nodup)).2.2 node hnode node hqueue rfl
      · have := (hold node (hsplit ▸ mem_append_left _ hnode)).1
        omega
  · intro node hnode
    rcases (hall node).mp hnode with hbefore | hnew
    · exact hstate.known node hbefore
    · exact hkey node hnew.2
  · intro node hnode dep hdep
    rcases (hall node).mp hnode with hbefore | ⟨hone, hentry⟩
    · exact mem_append_left _ (hstate.closed node hbefore dep hdep)
    · have hzero := hcount node
      rw [hdegree, hone, if_pos hentry] at hzero
      have hperm : ((processed ++ [current]).filter _).Perm (predecessors saga.deps node) :=
        filter_mem_perm hnodup (by omega)
      exact mem_of_mem_filter (hperm.mem_iff.mpr hdep)
  · intro node hnode
    rw [hall, hdegree, hstate.ready node hnode]
    by_cases hdep : current ∈ predecessors saga.deps node
    · have hne : inDegree node ≠ 0 := fun hzero =>
        (hold node ((hstate.ready node hnode).mpr hzero)).2 hdep
      simp [hdep, hne]
      omega
    · simp [hdep]
  · intro node hnode hcycle
    rcases mem_append.mp hnode with hbefore | hnew
    · exact hstate.acyclic node hbefore hcycle
    · obtain rfl := mem_singleton.mp hnew
      exact hfresh (hstate.mem_of_transGen hcurrent hcycle)

/-- With enough fuel the queue runs empty. -/
theorem DrainState.drained (fuel : ℕ) (hstate : DrainState saga processed inDegree queue)
    (hfuel : saga.stepIds.length ≤ processed.length + fuel) :
    ∃ final, DrainState saga (processed ++ drainQueue saga fuel inDegree queue) final [] := by
  induction fuel generalizing processed queue inDegree with
  | zero =>
    have hlength := (subperm_of_subset hstate.nodup hstate.known).length_le
    rw [length_append] at hlength
    obtain rfl : queue = [] := eq_nil_of_length_eq_zero (by omega)
    exact ⟨inDegree, by simpa [drainQueue] using hstate⟩
  | succ fuel ih =>
    cases queue with
    | nil => exact ⟨inDegree, by simpa [drainQueue] using hstate⟩
    | cons current queue =>
      obtain ⟨final, hfinal⟩ := ih hstate.next (by
        rw [length_append, length_singleton]
        omega)
      exact ⟨final, by simpa [drainQueue] using hfinal⟩

/-! ## What is accepted -/

def MentionsTwice (saga : SagaDefinition ι) : Prop :=
  ∃ item ∈ saga.steps.items, ¬ item.2.dependsOn.Nodup

theorem not_mentionsTwice_iff : ¬ MentionsTwice saga ↔
      ∀ node, (predecessors saga.deps node).Nodup := by
  unfold MentionsTwice predecessors SagaDefinition.deps
  push Not
  constructor
  · intro h node
    rw [Dict.get?_mapValues]
    cases hget : saga.steps.get? node with
    | none => exact nodup_nil
    | some stepDef => exact h _ (Dict.get?_eq_some_iff.mp hget)
  · intro h item hitem
    have hnode := h item.1
    rwa [Dict.get?_mapValues, Dict.get?_eq_some_iff.mpr hitem] at hnode

/-- The whole queue algorithm, with any fuel which is enough. -/
theorem drainQueue_length_iff (horder : order.Perm saga.stepIds)
    (hexist : ∀ node, ∀ dep ∈ predecessors saga.deps node,
      dep ∈ saga.stepIds) {fuel : ℕ} (hfuel : order.length ≤ fuel) :
    (drainQueue saga fuel (countEntries saga)
        (order.filter fun sid => countEntries saga sid = 0)).length = order.length ↔
      (∀ node, ¬ Relation.TransGen
        (fun dep node => dep ∈ predecessors saga.deps node) node node) ∧
      ¬ MentionsTwice saga := by
  obtain ⟨final, hfinal⟩ := (drainState_initial horder).drained fuel
    (by simpa [horder.length_eq] using hfuel)
  rw [nil_append] at hfinal
  generalize drainQueue saga fuel _ _ = drained at hfinal ⊢
  have hnodup : drained.Nodup := by simpa using hfinal.nodup
  have hknown : ∀ node ∈ drained, node ∈ saga.stepIds := by
    simpa using hfinal.known
  rw [horder.length_eq, not_mentionsTwice_iff]
  constructor
  · intro hlength
    have hperm : drained.Perm saga.stepIds :=
      (subperm_of_subset hnodup hknown).perm_of_length_le hlength.ge
    have hkey : ∀ node, node ∈ drained ∨ predecessors saga.deps node = [] := by
      intro node
      rw [hperm.mem_iff, ← SagaDefinition.keys_deps]
      exact or_iff_not_imp_left.mpr predecessors_eq_nil_of_notMem
    constructor
    · intro node hcycle
      rcases hkey node with hmem | hnil
      · exact hfinal.acyclic node hmem hcycle
      · obtain ⟨dep, -, hdep⟩ := Relation.TransGen.tail'_iff.mp hcycle
        rw [hnil] at hdep
        cases hdep
    · intro node
      rcases hkey node with hmem | hnil
      · have hzero := (hfinal.ready node (hknown node hmem)).mp (by simpa)
        rw [hfinal.degree] at hzero
        exact (filter_mem_perm hnodup (by omega)).nodup_iff.mp
          (hnodup.filter _)
      · rw [hnil]
        exact nodup_nil
  · rintro ⟨hacyclic, honce⟩
    have hall : ∀ node ∈ saga.stepIds, node ∈ drained := by
      refine forall_mem_of_acyclic hacyclic ?_
      intro node hnode ih
      have hzero : final node = 0 := by
        rw [hfinal.degree, countP_mem_eq_length hnodup (honce node)
          fun dep hdep => ih dep (hexist node dep hdep) hdep]
        omega
      simpa using (hfinal.ready node hnode).mpr hzero
    exact ((perm_ext_iff_of_nodup hnodup saga.stepIds_nodup).mpr
      fun node => ⟨hknown node, hall node⟩).length_eq

theorem validateDag_ok_iff (horder : order.Perm saga.stepIds) :
    validateDag order saga = .ok () ↔ ¬ Broken saga.deps ∧ ¬ MentionsTwice saga := by
  have hexist := @missingReference_eq_none ι _ saga
  unfold validateDag Broken
  rw [not_or, SagaDefinition.keys_deps]
  push Not
  cases hmissing : missingReference saga with
  | some found =>
    rw [hmissing] at hexist
    refine iff_of_false (by simp) fun h => ?_
    cases hexist.mpr h.1.1
  | none =>
    have hall := hexist.mp hmissing
    have hdrain := drainQueue_length_iff horder hall le_rfl
    dsimp only
    rw [and_assoc, and_iff_right hall, ← hdrain]
    split
    · next hne => exact iff_of_false (by simp) hne
    · next heq => exact iff_of_true rfl (not_not.mp heq)

/-- The validations accept what `compute_layers` can sort. -/
structure ValidatesAcyclic (saga : SagaDefinition ι)
    (validate : SagaDefinition ι → Except (SagaValidationError ι) Unit) :
    Prop where
  accepts : validate saga = .ok () ↔ ¬ Broken saga.deps
  agrees : validate saga = .ok () ↔ ∃ layers, computeLayers saga.deps = .ok layers

theorem validatesAcyclic_iff (saga : SagaDefinition ι) {order order' : List ι}
    (horder : order.Perm saga.stepIds) (horder' : order'.Perm saga.stepIds) :
    (ValidatesAcyclic saga (SagaRegistry.validateDag order) ∧
        ValidatesAcyclic saga (SagaBuilder.validateDag order')) ↔
      (MentionsTwice saga → Broken saga.deps) := by
  have hlayers : (∃ layers, computeLayers saga.deps = .ok layers) ↔ ¬ Broken saga.deps := by
    rw [computeLayers_isOk_iff, Broken, not_or]
    push Not
    exact Iff.rfl
  have hvalid : ∀ {order : List ι}, order.Perm saga.stepIds →
      (ValidatesAcyclic saga (Saga.validateDag order) ↔
        (MentionsTwice saga → Broken saga.deps)) := by
    intro order horder
    have hok := validateDag_ok_iff horder
    constructor
    · intro h htwice
      by_contra hbroken
      exact (hok.mp (h.accepts.mpr hbroken)).2 htwice
    · intro h
      have haccepts : validateDag order saga = .ok () ↔ ¬ Broken saga.deps :=
        hok.trans (and_iff_left_of_imp fun hbroken htwice =>
          hbroken (h htwice))
      exact ⟨haccepts, haccepts.trans hlayers.symm⟩
  exact (and_congr (hvalid horder) (hvalid horder')).trans (and_self_iff)

def repeatingSaga : SagaDefinition ℕ :=
  .ofSteps "transfer" [.reversible 0 [], .reversible 1 [0, 0]]

theorem validatesAcyclic_iff_repeating :
    (ValidatesAcyclic repeatingSaga (SagaRegistry.validateDag [0, 1]) ∧
        ValidatesAcyclic repeatingSaga (SagaBuilder.validateDag [1, 0])) ↔
      (MentionsTwice repeatingSaga → Broken repeatingSaga.deps) :=
  validatesAcyclic_iff repeatingSaga (List.Perm.refl _) (List.Perm.swap 0 1 [])

theorem not_validatesAcyclic_repeating :
    ¬ ValidatesAcyclic repeatingSaga (SagaRegistry.validateDag [0, 1]) := by
  intro h
  have hrejected := h.agrees.mpr ⟨[[0], [1]], by decide⟩
  revert hrejected
  decide

end PyFly.Saga
