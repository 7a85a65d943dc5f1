import Mathlib.Data.List.Sort

/-!
# Stable sorting

Elements which sort as equal stay in the order in which they were.
-/

namespace PyFly.Library

open List

variable {α : Type*} {r before : α → α → Prop}

def StablyOrdered (r before : α → α → Prop) (a b : α) : Prop :=
  r a b ∧ (r b a → before a b)

variable [DecidableRel r] [Std.Total r] [IsTrans α r]

theorem pairwise_orderedInsert_stable {a : α} {l : List α}
    (h : l.Pairwise (StablyOrdered r before))
    (hfirst : ∀ b ∈ l, r a b → r b a → before a b) :
    (l.orderedInsert r a).Pairwise (StablyOrdered r before) := by
  induction l with
  | nil => exact pairwise_singleton _ a
  | cons b l ih =>
    obtain ⟨hb, hl⟩ := pairwise_cons.mp h
    by_cases hab : r a b
    · rw [orderedInsert_cons_of_le r l hab]
      refine pairwise_cons.mpr ⟨?_, h⟩
      intro c hc
      have hac : r a c := by
        rcases mem_cons.mp hc with rfl | hc
        · exact hab
        · exact IsTrans.trans _ _ _ hab (hb c hc).1
      exact ⟨hac, hfirst c hc hac⟩
    · have hba : r b a := (Std.Total.total a b).resolve_left hab
      rw [orderedInsert_of_not_le r l hab]
      refine pairwise_cons.mpr ⟨?_, ih hl fun c hc =>
        hfirst c (mem_cons_of_mem _ hc)⟩
      intro c hc
      rcases (mem_orderedInsert r).mp hc with rfl | hc
      · exact ⟨hba, fun h => absurd h hab⟩
      · exact hb c hc

theorem pairwise_insertionSort_stable {l : List α}
    (h : l.Pairwise fun a b => r a b → r b a → before a b) :
    (l.insertionSort r).Pairwise (StablyOrdered r before) := by
  induction l with
  | nil => exact List.Pairwise.nil
  | cons a l ih =>
    obtain ⟨ha, hl⟩ := pairwise_cons.mp h
    rw [insertionSort_cons]
    exact pairwise_orderedInsert_stable (ih hl) fun b hb =>
      ha b ((mem_insertionSort r).mp hb)

end PyFly.Library
