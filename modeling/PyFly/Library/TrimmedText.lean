import Mathlib.Data.List.Infix
import Mathlib.Data.List.TakeWhile

/-!
# Trimmed and partitioned texts

A text loses the blanks at its ends, and is cut at the first occurrence of a
word.
-/

namespace PyFly.Library

open List

variable {α : Type*}

/-! ## Blanks at the ends -/

def trim (blank : α → Bool) (text : List α) : List α :=
  ((text.dropWhile blank).reverse.dropWhile blank).reverse

def Trimmed (blank : α → Bool) (text : List α) : Prop :=
  (∀ c ∈ text.head?, blank c = false) ∧ ∀ c ∈ text.getLast?, blank c = false

variable {blank : α → Bool} {text front back : List α}

theorem dropWhile_of_head (hhead : ∀ c ∈ text.head?, blank c = false) :
    text.dropWhile blank = text := by
  cases text with
  | nil => rfl
  | cons c text => simp [hhead c rfl]

theorem dropWhile_append_of_head (hfront : ∀ c ∈ front, blank c = true)
    (hhead : ∀ c ∈ text.head?, blank c = false) :
    (front ++ text).dropWhile blank = text := by
  rw [dropWhile_append_of_pos hfront, dropWhile_of_head hhead]

theorem trim_append (hfront : ∀ c ∈ front, blank c = true)
    (hback : ∀ c ∈ back, blank c = true) (htext : Trimmed blank text) :
    trim blank (front ++ text ++ back) = text := by
  have hreverse : (back.reverse ++ text.reverse).dropWhile blank = text.reverse := by
    apply dropWhile_append_of_head
    · intro c hc
      exact hback c (mem_reverse.mp hc)
    · rw [List.head?_reverse]
      exact htext.2
  cases text with
  | nil =>
    have hall : ∀ c ∈ front ++ back, blank c = true := by
      intro c hc
      exact (mem_append.mp hc).elim (hfront c) (hback c)
    rw [append_nil, trim, dropWhile_eq_nil_iff.mpr hall]
    rfl
  | cons c text =>
    have hdrop : (front ++ (c :: text ++ back)).dropWhile blank = c :: text ++ back :=
      dropWhile_append_of_head hfront htext.1
    rw [trim, append_assoc, hdrop, reverse_append, hreverse, reverse_reverse]

theorem trim_of_trimmed (htext : Trimmed blank text) : trim blank text = text := by
  have h : trim blank ([] ++ text ++ []) = text :=
    trim_append (by simp) (by simp) htext
  simpa using h

theorem trimmed_of_forall (h : ∀ c ∈ text, blank c = false) : Trimmed blank text :=
  ⟨fun c hc => h c (mem_of_head? hc), fun c hc => h c (mem_of_getLast? hc)⟩

theorem trimmed_append {middle : List α} (hfront : front ≠ [])
    (hback : back ≠ []) (hfirst : ∀ c ∈ front, blank c = false)
    (hlast : ∀ c ∈ back, blank c = false) :
    Trimmed blank (front ++ middle ++ back) := by
  constructor
  · intro c hc
    cases front with
    | nil => exact absurd rfl hfront
    | cons d front =>
      obtain rfl : d = c := by simpa using hc
      exact hfirst d mem_cons_self
  · intro c hc
    rw [List.getLast?_append_of_ne_nil _ hback] at hc
    exact hlast c (mem_of_getLast? hc)

/-! ## The first occurrence of a word -/

variable [DecidableEq α]

def partition (word : List α) : List α → Option (List α × List α)
  | [] => if word = [] then some ([], []) else none
  | c :: text =>
    if word <+: c :: text then some ([], (c :: text).drop word.length)
    else (partition word text).map fun parts => (c :: parts.1, parts.2)

variable {first : α} {rest : List α}

theorem partition_append (hfront : first ∉ front) :
    partition (first :: rest) (front ++ text) = (partition (first :: rest) text).map
        fun parts => (front ++ parts.1, parts.2) := by
  induction front with
  | nil => simp
  | cons c front ih =>
    have hc : first ≠ c := ne_of_not_mem_cons hfront
    have habsent : ¬ first :: rest <+: c :: (front ++ text) := fun h =>
      hc (cons_prefix_cons.mp h).1
    rw [cons_append, partition, if_neg habsent,
      ih (not_mem_of_not_mem_cons hfront), Option.map_map]
    rfl

theorem partition_of_notMem (htext : first ∉ text) : partition (first :: rest) text = none := by
  have h : partition (first :: rest) (text ++ []) = (partition (first :: rest) []).map
        fun parts => (text ++ parts.1, parts.2) :=
    partition_append htext
  rw [append_nil] at h
  rw [h]
  rfl

theorem partition_self_append (back : List α) :
    partition (first :: rest) (first :: rest ++ back) = some ([], back) := by
  have hpresent : first :: rest <+: first :: (rest ++ back) :=
    prefix_append (first :: rest) back
  rw [cons_append, partition, if_pos hpresent]
  simp

theorem partition_eq_none (hback : first ∉ back) (hword : ¬ rest <+: back) :
    partition (first :: rest) (first :: back) = none := by
  have habsent : ¬ first :: rest <+: first :: back := fun h =>
    hword (cons_prefix_cons.mp h).2
  rw [partition, if_neg habsent, partition_of_notMem hback]
  rfl

end PyFly.Library
