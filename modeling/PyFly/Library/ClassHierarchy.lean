import Mathlib.Data.List.Sort
import Mathlib.Logic.Relation

/-!
# Class hierarchies

Classes may have several bases.  The linearisation of the ancestors of a class
is longer than that of each of its strict ancestors, so that a search in the
order of the lengths finds a class with no strict subclass among the others.
-/

namespace PyFly.Library

open List

/-- Classes with their bases and their method resolution orders. -/
structure ClassHierarchy (τ : Type*) where
  bases : τ → List τ
  mro : τ → List τ
  mro_nodup : ∀ cls, (mro cls).Nodup
  mem_mro_iff : ∀ cls ancestor, ancestor ∈ mro cls ↔
    Relation.ReflTransGen (fun sub base => base ∈ bases sub) cls ancestor
  acyclic : ∀ cls, ¬ Relation.TransGen (fun sub base => base ∈ bases sub) cls cls

namespace ClassHierarchy

variable {τ : Type*} (hierarchy : ClassHierarchy τ)

def StrictSubclass (sub cls : τ) : Prop :=
  sub ≠ cls ∧ cls ∈ hierarchy.mro sub

variable {hierarchy} {sub cls ancestor : τ}

theorem mem_mro_self (cls : τ) : cls ∈ hierarchy.mro cls :=
  (hierarchy.mem_mro_iff cls cls).mpr .refl

theorem mem_mro_trans (hsub : cls ∈ hierarchy.mro sub)
    (hcls : ancestor ∈ hierarchy.mro cls) : ancestor ∈ hierarchy.mro sub := by
  rw [hierarchy.mem_mro_iff] at hsub hcls ⊢
  exact hsub.trans hcls

theorem notMem_mro_of_strictSubclass (h : hierarchy.StrictSubclass sub cls) :
    sub ∉ hierarchy.mro cls := by
  obtain ⟨hne, hmem⟩ := h
  intro hback
  rw [hierarchy.mem_mro_iff] at hmem hback
  rcases Relation.reflTransGen_iff_eq_or_transGen.mp hmem with heq | hup
  · exact hne heq.symm
  · exact hierarchy.acyclic sub (hup.trans_left hback)

theorem length_mro_lt (h : hierarchy.StrictSubclass sub cls) :
    (hierarchy.mro cls).length < (hierarchy.mro sub).length := by
  have hnew := notMem_mro_of_strictSubclass h
  have hnodup : (sub :: hierarchy.mro cls).Nodup :=
    nodup_cons.mpr ⟨hnew, hierarchy.mro_nodup cls⟩
  have hsubset : sub :: hierarchy.mro cls ⊆ hierarchy.mro sub := by
    intro ancestor hancestor
    rcases mem_cons.mp hancestor with rfl | hmem
    · exact mem_mro_self ancestor
    · exact mem_mro_trans h.2 hmem
  exact (subperm_of_subset hnodup hsubset).length_le

theorem not_strictSubclass_of_find? {υ : Type*} {entries : List (τ × υ)}
    {found other : τ × υ} {kind : τ × υ → Bool}
    (hsorted : entries.Pairwise fun first second =>
      (hierarchy.mro second.1).length ≤ (hierarchy.mro first.1).length)
    (hfound : entries.find? kind = some found) (hother : other ∈ entries)
    (hkind : kind other = true) :
    ¬ hierarchy.StrictSubclass other.1 found.1 := by
  obtain ⟨-, before, after, rfl, hbefore⟩ :=
    List.find?_eq_some_iff_append.mp hfound
  intro hstrict
  have hlength := length_mro_lt hstrict
  rcases mem_append.mp hother with hmem | hmem
  · have hskipped := hbefore other hmem
    simp [hkind] at hskipped
  · rcases mem_cons.mp hmem with rfl | hmem
    · exact absurd hlength (lt_irrefl _)
    · have hlater := rel_of_pairwise_cons (pairwise_append.mp hsorted).2.1 hmem
      omega

end ClassHierarchy

end PyFly.Library
