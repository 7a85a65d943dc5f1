import Mathlib.Data.List.Infix
import Mathlib.Tactic.Common

/-!
# Replacement of a word in a text

All occurrences of a word are replaced from left to right.  A text with slots
is one in which some occurrences of the word are known beforehand: the
replacement fills these slots and changes nothing else exactly when the word
does not occur beside them.
-/

namespace PyFly.Library

open List

variable {α : Type}

section Replacement

variable [DecidableEq α]

/-- The replacement in what is left of a text, after `skip` elements which
belong to the last occurrence. -/
def replaceFrom (needle repl : List α) : ℕ → List α → List α
  | _, [] => []
  | skip + 1, _ :: text => replaceFrom needle repl skip text
  | 0, c :: text =>
    if needle <+: c :: text then
      repl ++ replaceFrom needle repl (needle.length - 1) text
    else c :: replaceFrom needle repl 0 text

def replaceAll (needle repl text : List α) : List α :=
  replaceFrom needle repl 0 text

theorem replaceFrom_eq_drop (needle repl : List α) (skip : ℕ) (text : List α) :
    replaceFrom needle repl skip text = replaceAll needle repl (text.drop skip) := by
  induction text generalizing skip with
  | nil => cases skip <;> rfl
  | cons c text ih =>
    cases skip with
    | zero => rfl
    | succ skip => exact ih skip

@[simp] theorem replaceAll_nil (needle repl : List α) :
    replaceAll needle repl [] = [] := rfl

theorem replaceAll_cons_skip {needle repl text : List α} {c : α} (h : ¬ needle <+: c :: text) :
    replaceAll needle repl (c :: text) = c :: replaceAll needle repl text := by
  show replaceFrom needle repl 0 (c :: text) = _
  rw [replaceFrom, if_neg h]
  rfl

theorem replaceAll_append {needle : List α} (hneedle : needle ≠ []) (repl text : List α) :
    replaceAll needle repl (needle ++ text) = repl ++ replaceAll needle repl text := by
  cases needle with
  | nil => exact absurd rfl hneedle
  | cons first rest =>
    have hprefix : first :: rest <+: first :: (rest ++ text) :=
      prefix_append (first :: rest) text
    show replaceFrom _ repl 0 (first :: (rest ++ text)) = _
    rw [replaceFrom, if_pos hprefix, replaceFrom_eq_drop]
    simp

theorem replaceAll_of_absent {needle text : List α} (repl : List α)
    (h : ¬ needle <:+: text) : replaceAll needle repl text = text := by
  induction text with
  | nil => rfl
  | cons c text ih =>
    rw [infix_cons_iff, not_or] at h
    rw [replaceAll_cons_skip h.1, ih h.2]

theorem replaceAll_self {needle : List α} (hneedle : needle ≠ [])
    (text : List α) : replaceAll needle needle text = text := by
  induction hlength : text.length using Nat.strong_induction_on generalizing text with
  | _ length ih =>
    cases text with
    | nil => rfl
    | cons c text =>
      by_cases hprefix : needle <+: c :: text
      · obtain ⟨back, hback⟩ := hprefix
        have hshorter : back.length < length := by
          have hsum := congrArg List.length hback
          have hpositive := length_pos_iff.mpr hneedle
          rw [length_append] at hsum
          omega
        rw [← hback, replaceAll_append hneedle, ih back.length hshorter back rfl]
      · rw [replaceAll_cons_skip hprefix, ih text.length (by simp [← hlength]) text rfl]

end Replacement

/-! ## Slots -/

def fill (filler : List α) (slots : List (Option α)) : List α :=
  slots.flatMap fun slot => slot.elim filler fun c => [c]

@[simp] theorem fill_nil (filler : List α) : fill filler [] = [] := rfl

@[simp] theorem fill_none (filler : List α) (slots : List (Option α)) :
    fill filler (none :: slots) = filler ++ fill filler slots := rfl

@[simp] theorem fill_some (filler : List α) (c : α)
    (slots : List (Option α)) :
    fill filler (some c :: slots) = c :: fill filler slots := rfl

@[simp] theorem fill_append (filler : List α) (front back : List (Option α)) :
    fill filler (front ++ back) = fill filler front ++ fill filler back :=
  flatMap_append

@[simp] theorem fill_map_some (filler text : List α) :
    fill filler (text.map some) = text := by
  induction text with
  | nil => rfl
  | cons c text ih => rw [map_cons, fill_some, ih]

theorem fill_flatMap {β : Type} (filler : List α) (items : List β)
    (slots : β → List (Option α)) :
    fill filler (items.flatMap slots) = items.flatMap fun item => fill filler (slots item) := by
  induction items with
  | nil => rfl
  | cons item items ih =>
    rw [flatMap_cons, flatMap_cons, fill_append, ih]

def Solid (needle : List α) : Prop :=
  ∃ first rest, needle = first :: rest ∧ first ∉ rest

theorem Solid.ne_nil {needle : List α} (h : Solid needle) : needle ≠ [] := by
  obtain ⟨first, rest, hneedle, _⟩ := h
  rw [hneedle]
  exact cons_ne_nil first rest

theorem prefix_fill_iff {first : α} {rest word : List α}
    (hword : first ∉ word) (slots : List (Option α)) :
    word <+: fill (first :: rest) slots ↔ word.map some <+: slots := by
  induction word generalizing slots with
  | nil => simp
  | cons c word ih =>
    rw [mem_cons, not_or] at hword
    cases slots with
    | nil => simp
    | cons slot slots =>
      cases slot with
      | none =>
        have hleft : ¬ c :: word <+: first :: (rest ++ fill (first :: rest) slots) := by
          intro h
          exact hword.1 (cons_prefix_cons.mp h).1.symm
        have hright : ¬ (c :: word).map some <+: none :: slots := by
          intro h
          exact Option.some_ne_none c (cons_prefix_cons.mp h).1
        exact iff_of_false hleft hright
      | some d =>
        rw [fill_some, map_cons, cons_prefix_cons,
          cons_prefix_cons, Option.some.injEq, ih hword.2]

theorem Solid.prefix_iff {needle : List α} (h : Solid needle) (c : α)
    (slots : List (Option α)) :
    needle <+: c :: fill needle slots ↔ needle.map some <+: some c :: slots := by
  obtain ⟨first, rest, rfl, hfirst⟩ := h
  rw [cons_prefix_cons, map_cons, cons_prefix_cons, Option.some.injEq, prefix_fill_iff hfirst]

section Filling

variable [DecidableEq α] {needle : List α}

variable {slots : List (Option α)}

theorem replaceAll_fill (hsolid : Solid needle) (repl : List α)
    (hclean : ¬ needle.map some <:+: slots) :
    replaceAll needle repl (fill needle slots) = fill repl slots := by
  induction slots with
  | nil => rfl
  | cons slot slots ih =>
    rw [infix_cons_iff, not_or] at hclean
    cases slot with
    | none =>
      rw [fill_none, fill_none, replaceAll_append hsolid.ne_nil, ih hclean.2]
    | some c =>
      have hnot : ¬ needle <+: c :: fill needle slots := by
        rw [hsolid.prefix_iff]
        exact hclean.1
      rw [fill_some, fill_some, replaceAll_cons_skip hnot, ih hclean.2]

theorem length_replaceAll_fill (hsolid : Solid needle) (repl : List α)
    (slots : List (Option α)) :
    ∃ extra, (replaceAll needle repl (fill needle slots)).length + extra * needle.length =
      (fill repl slots).length + extra * repl.length := by
  induction hlength : slots.length using Nat.strong_induction_on generalizing slots with
  | _ length ih =>
    cases slots with
    | nil => exact ⟨0, by simp⟩
    | cons slot slots =>
      cases slot with
      | none =>
        obtain ⟨extra, hextra⟩ :=
          ih slots.length (by simp [← hlength]) slots rfl
        refine ⟨extra, ?_⟩
        rw [fill_none, fill_none, replaceAll_append hsolid.ne_nil, length_append, length_append]
        omega
      | some c =>
        by_cases hprefix : needle.map some <+: some c :: slots
        · obtain ⟨back, hback⟩ := hprefix
          have hshorter : back.length < length := by
            have hsum := congrArg List.length hback
            have hpositive := length_pos_iff.mpr hsolid.ne_nil
            rw [length_append, length_map] at hsum
            omega
          obtain ⟨extra, hextra⟩ := ih back.length hshorter back rfl
          refine ⟨extra + 1, ?_⟩
          rw [← hback, fill_append, fill_append, fill_map_some,
            fill_map_some, replaceAll_append hsolid.ne_nil,
            length_append, length_append, Nat.add_mul,
            Nat.add_mul]
          omega
        · obtain ⟨extra, hextra⟩ :=
            ih slots.length (by simp [← hlength]) slots rfl
          refine ⟨extra, ?_⟩
          rw [← hsolid.prefix_iff] at hprefix
          rw [fill_some, fill_some, replaceAll_cons_skip hprefix, length_cons, length_cons]
          omega

theorem not_infix_of_replaceAll_fill (hsolid : Solid needle) {repl : List α}
    (hrepl : repl ≠ needle)
    (heq : replaceAll needle repl (fill needle slots) = fill repl slots) :
    ¬ needle.map some <:+: slots := by
  induction slots with
  | nil =>
    rw [infix_nil, map_eq_nil_iff]
    exact hsolid.ne_nil
  | cons slot slots ih =>
    rw [infix_cons_iff, not_or]
    cases slot with
    | none =>
      rw [fill_none, fill_none, replaceAll_append hsolid.ne_nil] at heq
      refine ⟨?_, ih (append_cancel_left heq)⟩
      intro hprefix
      obtain ⟨first, rest, rfl, _⟩ := hsolid
      exact Option.some_ne_none first (cons_prefix_cons.mp hprefix).1
    | some c =>
      have hnot : ¬ needle.map some <+: some c :: slots := by
        intro hprefix
        obtain ⟨back, hback⟩ := hprefix
        rw [← hback, fill_append, fill_append, fill_map_some,
          fill_map_some, replaceAll_append hsolid.ne_nil] at heq
        -- the lengths of both sides agree only if the two words do
        obtain ⟨extra, hextra⟩ := length_replaceAll_fill hsolid repl back
        have hlengths := congrArg List.length heq
        rw [length_append, length_append] at hlengths
        have hproduct : (extra + 1) * repl.length = (extra + 1) * needle.length := by
          rw [Nat.add_mul, Nat.add_mul]
          omega
        have hlength : repl.length = needle.length :=
          Nat.eq_of_mul_eq_mul_left (Nat.succ_pos extra) hproduct
        exact hrepl (append_inj_left heq hlength)
      refine ⟨hnot, ?_⟩
      rw [← hsolid.prefix_iff] at hnot
      rw [fill_some, fill_some, replaceAll_cons_skip hnot] at heq
      exact ih (List.cons.inj heq).2

theorem replaceAll_fill_iff (hsolid : Solid needle) {repl : List α} :
    replaceAll needle repl (fill needle slots) = fill repl slots ↔
      (repl ≠ needle → ¬ needle.map some <:+: slots) := by
  constructor
  · intro heq hrepl
    exact not_infix_of_replaceAll_fill hsolid hrepl heq
  · intro hclean
    by_cases hrepl : repl = needle
    · subst hrepl
      exact replaceAll_self hsolid.ne_nil _
    · exact replaceAll_fill hsolid repl (hclean hrepl)

end Filling

end PyFly.Library
