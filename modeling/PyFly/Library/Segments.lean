import Mathlib.Data.List.Flatten
import Mathlib.Tactic.Common

/-!
# The segments of a text

A text is cut at a separator into segments, and is the segments with the
separator between them.  What occurs between two separators is a segment, also
where the text is only the beginning of another one.
-/

namespace PyFly.Library

open List

variable {α : Type} [BEq α] [LawfulBEq α] {a : α}

theorem notMem_of_mem_splitOn {text segment : List α}
    (h : segment ∈ text.splitOn a) : a ∉ segment := by
  induction text generalizing segment with
  | nil =>
    rw [splitOn_nil, mem_singleton] at h
    simp [h]
  | cons c text ih =>
    rw [splitOn_cons_eq_if_modifyHead] at h
    split at h
    · rcases mem_cons.mp h with rfl | h
      · exact not_mem_nil
      · exact ih h
    · next hsep =>
        cases hsegments : text.splitOn a with
        | nil => exact absurd hsegments (splitOn_ne_nil _ _)
        | cons first segments =>
          rw [hsegments, modifyHead_cons] at h
          rcases mem_cons.mp h with rfl | h
          · intro hmem
            rcases mem_cons.mp hmem with hsame | hmem
            · exact hsep (beq_iff_eq.mpr hsame.symm)
            · exact ih (hsegments ▸ mem_cons_self) hmem
          · exact ih (hsegments ▸ mem_cons_of_mem _ h)

theorem splitOn_injective (a : α) : Function.Injective fun text : List α => text.splitOn a := by
  intro text other h
  have hjoin := congrArg (List.intercalate [a]) h
  rwa [intercalate_splitOn, intercalate_splitOn] at hjoin

theorem splitOn_intercalate_flatten {words : List (List α)} (hne : words ≠ []) :
    ([a].intercalate words).splitOn a = (words.map fun word => word.splitOn a).flatten := by
  induction words with
  | nil => exact absurd rfl hne
  | cons word words ih =>
    cases words with
    | nil => simp
    | cons other words =>
      rw [intercalate_cons_cons, map_cons, flatten_cons, ← ih (cons_ne_nil _ _), append_assoc,
        singleton_append, splitOn_append_cons_self]

theorem splitOn_eq_singleton_iff {text segment : List α} :
    text.splitOn a = [segment] ↔ a ∉ text ∧ text = segment := by
  constructor
  · intro h
    have hplain : a ∉ segment :=
      notMem_of_mem_splitOn (h ▸ mem_singleton_self segment)
    have hsame : text = segment :=
      splitOn_injective a (h.trans (splitOn_eq_singleton hplain).symm)
    exact ⟨hsame ▸ hplain, hsame⟩
  · intro h
    rw [← h.2]
    exact splitOn_eq_singleton h.1

def segmentsBehind (a : α) : List α → List (List α)
  | [] => []
  | _ :: rest => rest.splitOn a

theorem splitOn_append_behind {text behind : List α} (hbehind : ∀ c ∈ behind.head?, c = a) :
    (text ++ behind).splitOn a = text.splitOn a ++ segmentsBehind a behind := by
  cases behind with
  | nil => rw [append_nil, segmentsBehind, append_nil]
  | cons c behind =>
    obtain rfl := hbehind c rfl
    rw [splitOn_append_cons_self, segmentsBehind]

theorem splitOn_of_occurrence {front word more text behind : List α}
    (hbehind : ∀ c ∈ behind.head?, c = a) (hword : a ∉ word)
    (hsplit : front ++ a :: (word ++ a :: more) = text ++ behind)
    (hlt : front.length < text.length) :
    ∃ segments, text.splitOn a = front.splitOn a ++ word :: segments ∧
      segments ++ segmentsBehind a behind = more.splitOn a := by
  rcases append_eq_append_iff.mp hsplit with
    ⟨within, htext, hwithin⟩ | ⟨excess, hfront, -⟩
  · cases within with
    | nil =>
      rw [append_nil] at htext
      exact absurd (htext ▸ hlt) (Nat.lt_irrefl _)
    | cons c inside =>
      rw [cons_append, List.cons.injEq] at hwithin
      obtain ⟨rfl, hinside⟩ := hwithin
      have hwhole : inside.splitOn a ++ segmentsBehind a behind = word :: more.splitOn a := by
        rw [← splitOn_append_behind hbehind, ← hinside,
          splitOn_append_cons_self_of_not_mem hword]
      rw [htext, splitOn_append_cons_self]
      cases hsegments : inside.splitOn a with
      | nil => exact absurd hsegments (splitOn_ne_nil _ _)
      | cons first segments =>
        rw [hsegments, cons_append, List.cons.injEq] at hwhole
        exact ⟨segments, by rw [hwhole.1], hwhole.2⟩
  · have hle : text.length ≤ front.length := by
      rw [hfront, length_append]
      exact Nat.le_add_right _ _
    exact absurd hlt (Nat.not_lt.mpr hle)

end PyFly.Library
