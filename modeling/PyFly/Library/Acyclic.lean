import Mathlib.Data.Finite.Defs
import Mathlib.Data.Set.Finite.List
import Mathlib.Logic.Relation
import Mathlib.Order.WellFounded
import Mathlib.Order.RelClasses

/-!
# Relations without cycles

What follows from the same of all predecessors holds of every member of a
finite list, when the relation has no cycles.
-/

namespace PyFly.Library

variable {α : Type} {r : α → α → Prop}

theorem forall_mem_of_acyclic {nodes : List α}
    (hacyclic : ∀ node, ¬ Relation.TransGen r node node) {p : α → Prop}
    (hstep : ∀ node ∈ nodes, (∀ pred ∈ nodes, r pred node → p pred) → p node) :
    ∀ node ∈ nodes, p node := by
  let Edge : {node // node ∈ nodes} → {node // node ∈ nodes} → Prop :=
    fun pred node => Relation.TransGen r pred.1 node.1
  have hfinite : Finite {node // node ∈ nodes} :=
    nodes.finite_toSet.to_subtype
  have htrans : IsTrans _ Edge := ⟨fun _ _ _ first second =>
    first.trans second⟩
  have hirrefl : Std.Irrefl Edge := ⟨fun node => hacyclic node.1⟩
  have hwf : WellFounded Edge := Finite.wellFounded_of_trans_of_irrefl Edge
  have hall : ∀ node : {node // node ∈ nodes}, p node.1 := by
    intro node
    induction node using hwf.induction with
    | _ node ih =>
      apply hstep node.1 node.2
      intro pred hpred hedge
      exact ih ⟨pred, hpred⟩ (Relation.TransGen.single hedge)
  intro node hnode
  exact hall ⟨node, hnode⟩

theorem acyclic_of_rank_lt (rank : α → ℕ)
    (hrank : ∀ pred node, r pred node → rank pred < rank node) (node : α) :
    ¬ Relation.TransGen r node node := by
  have hlt : ∀ first last, Relation.TransGen r first last → rank first < rank last := by
    intro first last hchain
    induction hchain with
    | single hedge => exact hrank _ _ hedge
    | tail _ hedge ih => exact ih.trans (hrank _ _ hedge)
  intro hcycle
  exact Nat.lt_irrefl _ (hlt node node hcycle)

end PyFly.Library
