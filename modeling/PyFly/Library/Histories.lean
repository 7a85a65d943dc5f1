import Mathlib.Data.List.Basic

/-!
# Histories

What holds at every event of a history, given the events before it.
-/

namespace PyFly.Library

open List

variable {α : Type}

def AtEach (property : List α → α → Prop) (history : List α) : Prop :=
  ∀ front event back, history = front ++ event :: back → property front event

namespace AtEach

variable {property : List α → α → Prop} {history : List α} {event : α}

theorem nil : AtEach property [] := by
  intro front event back hsplit
  simp at hsplit

theorem concat (hhistory : AtEach property history)
    (hevent : property history event) : AtEach property (history ++ [event]) := by
  intro front item back hsplit
  rcases eq_nil_or_concat back with rfl | ⟨rest, last, rfl⟩
  · obtain ⟨hfront, hitem⟩ := append_inj' hsplit rfl
    rw [← hfront, ← head_eq_of_cons_eq hitem]
    exact hevent
  · rw [concat_eq_append, ← cons_append, ← append_assoc]
      at hsplit
    exact hhistory front item rest (append_inj' hsplit rfl).1

theorem concat_iff : AtEach property (history ++ [event]) ↔
    AtEach property history ∧ property history event := by
  constructor
  · intro hboth
    refine ⟨?_, hboth history event [] rfl⟩
    intro front item back hsplit
    exact hboth front item (back ++ [event]) (by simp [hsplit])
  · intro hboth
    exact hboth.1.concat hboth.2

theorem append (hhistory : AtEach property history) {events : List α}
    (hevents : ∀ event ∈ events, ∀ before, property before event) :
    AtEach property (history ++ events) := by
  induction events generalizing history with
  | nil => simpa using hhistory
  | cons event rest ih =>
    rw [append_cons]
    apply ih
    · exact hhistory.concat (hevents event mem_cons_self _)
    · exact fun other hmem => hevents other (mem_cons_of_mem _ hmem)

theorem iff_of_at {other : List α → α → Prop}
    (hat : AtEach (fun front event => property front event ↔ other front event) history) :
    AtEach property history ↔ AtEach other history := by
  constructor
  · intro hproperty front event back hsplit
    exact (hat front event back hsplit).mp (hproperty front event back hsplit)
  · intro hother front event back hsplit
    exact (hat front event back hsplit).mpr (hother front event back hsplit)

theorem mono {other : List α → α → Prop} (hhistory : AtEach property history)
    (himp : ∀ front event, property front event → other front event) :
    AtEach other history :=
  fun front event back hsplit =>
    himp front event (hhistory front event back hsplit)

end AtEach

end PyFly.Library
