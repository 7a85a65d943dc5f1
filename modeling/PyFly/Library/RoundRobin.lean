import Mathlib.Data.List.Nodup
import Mathlib.Data.List.Range
import Mathlib.Data.List.Rotate
import Mathlib.Tactic.Common

/-!
# Turns of a round robin

Members join a group and turns are handed out to them.  The rota is fair when
every stretch of turns as long as the group is large, with nobody joining in
between, gives each member one.
-/

namespace PyFly.Library

open List

variable {α : Type}

/-! ## Cycles -/

structure CycleIterator (α : Type) where
  items : List α
  taken : ℕ := 0

namespace CycleIterator

def next (cycle : CycleIterator α) : Option (α × CycleIterator α) :=
  cycle.items[cycle.taken % cycle.items.length]?.map fun item =>
    (item, { cycle with taken := cycle.taken + 1 })

/-- What a cycle over the items gives in the turns from `start` on. -/
def drawn (items : List α) (start count : ℕ) : List α :=
  (List.range' start count).filterMap fun turn =>
    items[turn % items.length]?

theorem next_eq_some {cycle following : CycleIterator α} {item : α}
    (hnext : cycle.next = some (item, following)) :
    cycle.items[cycle.taken % cycle.items.length]? = some item ∧
      following = { cycle with taken := cycle.taken + 1 } := by
  obtain ⟨found, hfound, heq⟩ := Option.map_eq_some_iff.mp hnext
  cases heq
  exact ⟨hfound, rfl⟩

variable {items : List α}

@[simp] theorem drawn_zero (items : List α) (start : ℕ) :
    drawn items start 0 = [] := rfl

theorem drawn_add (items : List α) (start first second : ℕ) :
    drawn items start (first + second) =
      drawn items start first ++ drawn items (start + first) second := by
  rw [drawn, ← List.range'_append_1, filterMap_append]
  rfl

variable {start count : ℕ}

theorem drawn_succ {item : α} (hitem : items[(start + count) % items.length]? = some item) :
    drawn items start (count + 1) = drawn items start count ++ [item] := by
  rw [drawn_add]
  simp [drawn, hitem]

theorem exists_item (hitems : items ≠ []) (turn : ℕ) :
    ∃ item, items[turn % items.length]? = some item := by
  have hlt := Nat.mod_lt turn (length_pos_iff.mpr hitems)
  exact ⟨_, List.getElem?_eq_getElem hlt⟩

@[simp] theorem length_drawn (hitems : items ≠ []) (start count : ℕ) :
    (drawn items start count).length = count := by
  induction count with
  | zero => rfl
  | succ count ih =>
    obtain ⟨item, hitem⟩ := exists_item hitems (start + count)
    rw [drawn_succ hitem, length_append, ih, length_singleton]

theorem getElem?_drawn (hitems : items ≠ []) {turn : ℕ} (hturn : turn < count) :
    (drawn items start count)[turn]? = items[(start + turn) % items.length]? := by
  induction count with
  | zero => exact absurd hturn (Nat.not_lt_zero turn)
  | succ count ih =>
    obtain ⟨item, hitem⟩ := exists_item hitems (start + count)
    rw [drawn_succ hitem]
    rcases Nat.lt_succ_iff_lt_or_eq.mp hturn with hlt | rfl
    · rw [List.getElem?_append_left (by simpa [hitems] using hlt), ih hlt]
    · rw [List.getElem?_append_right (by simp [hitems])]
      simp [hitems, hitem]

theorem drawn_perm (hitems : items ≠ []) (start : ℕ) :
    (drawn items start items.length).Perm items := by
  have hrotate : drawn items start items.length = items.rotate start := by
    apply ext_getElem?
    intro turn
    by_cases hturn : turn < items.length
    · rw [getElem?_drawn hitems hturn, List.getElem?_rotate hturn, Nat.add_comm]
    · rw [List.getElem?_eq_none (by simpa [hitems] using hturn),
        List.getElem?_eq_none (by simpa using hturn)]
  rw [hrotate]
  exact rotate_perm items start

theorem not_nodup_drawn (hitems : items ≠ []) (hcount : items.length < count) :
    ¬ (drawn items start count).Nodup := by
  intro hnodup
  have hpos := length_pos_iff.mpr hitems
  apply nodup_iff_getElem?_ne_getElem?.mp hnodup 0 items.length hpos
  · simpa [hitems] using hcount
  · rw [getElem?_drawn hitems (by omega), getElem?_drawn hitems hcount]
    simp

end CycleIterator

/-! ## Rotas -/

inductive Turn (α : Type)
  | joined (member : α)
  | selected (member : α)

namespace Turn

def members (turns : List (Turn α)) : List α :=
  turns.filterMap fun
    | joined member => some member
    | selected _ => none

def current (turns : List (Turn α)) : List α :=
  turns.foldl (fun run turn =>
    match turn with
    | joined _ => []
    | selected member => run ++ [member]) []

def Fair (turns : List (Turn α)) : Prop :=
  ∀ (front : List (Turn α)) (window : List α) (back : List (Turn α)),
    turns = front ++ (window.map selected ++ back) →
      window.length = (members front).length → window.Perm (members front)

variable {turns : List (Turn α)} {member : α}

@[simp] theorem members_joined :
    members (turns ++ [joined member]) = members turns ++ [member] := by
  simp [members]

@[simp] theorem members_append_selected (window : List α) :
    members (turns ++ window.map selected) = members turns := by
  simp [members, filterMap_map]

@[simp] theorem current_joined : current (turns ++ [joined member]) = [] := by
  simp [current]

@[simp] theorem current_append_selected (window : List α) :
    current (turns ++ window.map selected) = current turns ++ window := by
  induction window using List.reverseRecOn with
  | nil => simp
  | append_singleton window member ih =>
    rw [map_append, ← append_assoc, ← append_assoc, ← ih]
    simp [current]

theorem exists_front (turns : List (Turn α)) :
    ∃ front, turns = front ++ (current turns).map selected ∧ members front = members turns := by
  induction turns using List.reverseRecOn with
  | nil => exact ⟨[], rfl, rfl⟩
  | append_singleton turns turn ih =>
    cases turn with
    | joined member => exact ⟨turns ++ [joined member], by simp, rfl⟩
    | selected member =>
      obtain ⟨front, hfront, hmembers⟩ := ih
      have hcurrent : current (turns ++ [selected member]) =
          current turns ++ [member] := current_append_selected [member]
      have hsame : members (turns ++ [selected member]) = members turns :=
        members_append_selected [member]
      refine ⟨front, ?_, hmembers.trans hsame.symm⟩
      rw [hcurrent, map_append, ← append_assoc, ← hfront]
      rfl

theorem Fair.of_append {others : List (Turn α)}
    (hfair : Fair (turns ++ others)) : Fair turns := by
  intro front window back hsplit hlength
  apply hfair front window (back ++ others) _ hlength
  rw [hsplit]
  simp

theorem fair_joined_iff : Fair (turns ++ [joined member]) ↔ Fair turns := by
  refine ⟨Fair.of_append, fun hfair => ?_⟩
  intro front window back hsplit hlength
  rcases eq_nil_or_concat back with rfl | ⟨rest, last, rfl⟩
  · rcases eq_nil_or_concat window with rfl | ⟨window, last, rfl⟩
    · rw [eq_nil_of_length_eq_zero hlength.symm]
    · rw [append_nil, concat_eq_append, map_append, ← append_assoc] at hsplit
      have hlast := (append_inj' hsplit rfl).2
      simp at hlast
  · rw [concat_eq_append, ← append_assoc, ← append_assoc]
      at hsplit
    apply hfair front window rest _ hlength
    rw [(append_inj' hsplit rfl).1, append_assoc]

theorem fair_selected_iff : Fair (turns ++ [selected member]) ↔ Fair turns ∧
      ∀ window, window <:+ current turns ++ [member] →
        window.length = (members turns).length → window.Perm (members turns) := by
  constructor
  · intro hfair
    refine ⟨hfair.of_append, fun window hwindow hlength => ?_⟩
    obtain ⟨front, hfront, hmembers⟩ := exists_front turns
    obtain ⟨skipped, hskipped⟩ := hwindow
    have hmembers : members (front ++ skipped.map selected) = members turns := by
      rw [members_append_selected, hmembers]
    rw [← hmembers] at hlength ⊢
    apply hfair _ window [] _ hlength
    rw [append_nil, append_assoc, ← map_append, hskipped, map_append, ← append_assoc, ← hfront]
    rfl
  · rintro ⟨hfair, hlast⟩
    intro front window back hsplit hlength
    rcases eq_nil_or_concat back with rfl | ⟨rest, last, rfl⟩
    · rw [append_nil] at hsplit
      have hcurrent := congrArg current hsplit
      have hmembers := congrArg members hsplit
      rw [current_append_selected] at hcurrent
      rw [members_append_selected] at hmembers
      have hcurrent' : current turns ++ [member] = current front ++ window :=
        (current_append_selected [member]).symm.trans hcurrent
      have hmembers' : members turns = members front :=
        (members_append_selected [member]).symm.trans hmembers
      rw [← hmembers'] at hlength ⊢
      apply hlast window _ hlength
      rw [hcurrent']
      exact suffix_append _ _
    · rw [concat_eq_append, ← append_assoc, ← append_assoc]
        at hsplit
      apply hfair front window rest _ hlength
      rw [(append_inj' hsplit rfl).1, append_assoc]

theorem drawn_fair_iff {items members : List α} (hitems : items ≠ [])
    (hinitial : items <+: members) (hnodup : members.Nodup) (taken : ℕ) :
    (∀ window, window <:+ CycleIterator.drawn items 0 (taken + 1) →
      window.length = members.length → window.Perm members) ↔
      items = members ∨ taken + 1 < members.length := by
  have hwindow : ∀ window, window <:+ CycleIterator.drawn items 0 (taken + 1) →
      window.length ≤ taken + 1 ∧ window = CycleIterator.drawn items
        (taken + 1 - window.length) window.length := by
    intro window hsuffix
    have hle : window.length ≤ taken + 1 := by
      simpa [hitems] using hsuffix.length_le
    obtain ⟨skipped, hskipped⟩ := hsuffix
    have hsplit := CycleIterator.drawn_add items 0 (taken + 1 - window.length) window.length
    rw [Nat.sub_add_cancel hle, ← hskipped, Nat.zero_add] at hsplit
    exact ⟨hle, (append_inj' hsplit (by simp [hitems])).2⟩
  constructor
  · intro hall
    by_contra hnot
    rw [not_or, Nat.not_lt] at hnot
    have hlt : items.length < members.length := by
      apply lt_of_le_of_ne hinitial.length_le
      exact fun hlength => hnot.1 (hinitial.eq_of_length hlength)
    have hsplit := CycleIterator.drawn_add items 0 (taken + 1 - members.length) members.length
    rw [Nat.sub_add_cancel hnot.2, Nat.zero_add] at hsplit
    apply CycleIterator.not_nodup_drawn hitems hlt
    refine (hall (CycleIterator.drawn items (taken + 1 - members.length)
      members.length) ⟨_, hsplit.symm⟩ ?_).nodup_iff.mpr hnodup
    exact CycleIterator.length_drawn hitems _ _
  · rintro (rfl | hlt) window hsuffix hlength
    · rw [(hwindow window hsuffix).2, hlength]
      exact CycleIterator.drawn_perm hitems _
    · have hle := (hwindow window hsuffix).1
      omega

end Turn

end PyFly.Library
