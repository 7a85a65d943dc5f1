import Mathlib.Data.List.Basic

/-!
# Maps whose function may fail

A list is mapped with `mapM` in `Except`: an error is one of an item, and values
are there when every item has one.
-/

namespace PyFly.Library

open List

variable {α β ε : Type} {f : α → Except ε β} {first : α} {items : List α}

theorem mapM_cons_of_error {error : ε} (hfirst : f first = .error error) :
    (first :: items).mapM f = .error error := by
  rw [mapM_cons, hfirst]
  rfl

theorem mapM_cons_of_ok {value : β} (hfirst : f first = .ok value) :
    (first :: items).mapM f = (items.mapM f).map (value :: ·) := by
  rw [mapM_cons, hfirst]
  cases items.mapM f <;> rfl

theorem exists_error_of_mapM {error : ε} (h : items.mapM f = .error error) :
    ∃ item ∈ items, f item = .error error := by
  induction items with
  | nil => cases h
  | cons first items ih =>
    cases hfirst : f first with
    | error other =>
      rw [mapM_cons_of_error hfirst] at h
      obtain rfl := Except.error.inj h
      exact ⟨first, mem_cons_self, hfirst⟩
    | ok value =>
      rw [mapM_cons_of_ok hfirst] at h
      cases hitems : items.mapM f with
      | ok values =>
        rw [hitems] at h
        cases h
      | error other =>
        rw [hitems] at h
        obtain rfl := Except.error.inj h
        obtain ⟨item, hitem, herror⟩ := ih hitems
        exact ⟨item, mem_cons_of_mem _ hitem, herror⟩

theorem exists_ok_of_mapM {values : List β} (h : items.mapM f = .ok values)
    {item : α} (hitem : item ∈ items) : ∃ value, f item = .ok value := by
  induction items generalizing values with
  | nil => exact absurd hitem not_mem_nil
  | cons first items ih =>
    cases hfirst : f first with
    | error error =>
      rw [mapM_cons_of_error hfirst] at h
      cases h
    | ok value =>
      rcases mem_cons.mp hitem with rfl | hitem
      · exact ⟨value, hfirst⟩
      · rw [mapM_cons_of_ok hfirst] at h
        cases hitems : items.mapM f with
        | error error =>
          rw [hitems] at h
          cases h
        | ok values => exact ih hitems hitem

theorem mapM_error_iff : (∃ error, items.mapM f = .error error) ↔
      ∃ item ∈ items, ∃ error, f item = .error error := by
  constructor
  · rintro ⟨error, h⟩
    obtain ⟨item, hitem, herror⟩ := exists_error_of_mapM h
    exact ⟨item, hitem, error, herror⟩
  · rintro ⟨item, hitem, error, herror⟩
    cases h : items.mapM f with
    | error other => exact ⟨other, rfl⟩
    | ok values =>
      obtain ⟨value, hvalue⟩ := exists_ok_of_mapM h hitem
      rw [herror] at hvalue
      cases hvalue

end PyFly.Library
