import Mathlib.Computability.Language
import PyFly.Library.TextPatterns

/-!
# Regular expressions

The regular expressions of a text, with groups, repetitions and the classes of
all characters but one.  A full match is found with derivatives, and is
membership in the language of the expression.
-/

open scoped Computability

namespace PyFly.Library

open List

inductive Regex (α : Type)
  | fail
  | empty
  | one (test : α → Bool)
  | either (first second : Regex α)
  | seq (first second : Regex α)
  | star (body : Regex α)

namespace Regex

variable {α : Type}

/-! ## Languages -/

def language : Regex α → Language α
  | fail => 0
  | empty => 1
  | one test => {value | ∃ c, test c = true ∧ value = [c]}
  | either first second => first.language + second.language
  | seq first second => first.language * second.language
  | star body => body.language∗

/-- `+` -/
def plus (body : Regex α) : Regex α :=
  seq body (star body)

def concat (regexes : List (Regex α)) : Regex α :=
  regexes.foldr seq empty

theorem language_concat (regexes : List (Regex α)) :
    (concat regexes).language = (regexes.map language).prod := by
  induction regexes with
  | nil => rfl
  | cons regex regexes ih =>
    rw [map_cons, prod_cons, ← ih]
    rfl

variable {test : α → Bool} {value : List α}

theorem mem_language_one : value ∈ (one test).language ↔ ∃ c, test c = true ∧ value = [c] :=
  Iff.rfl

variable {first second : Regex α}

theorem mem_language_either : value ∈ (either first second).language ↔
      value ∈ first.language ∨ value ∈ second.language :=
  Iff.rfl

theorem mem_language_seq : value ∈ (seq first second).language ↔ ∃ front back,
      front ∈ first.language ∧ back ∈ second.language ∧ front ++ back = value := by
  rw [language, Language.mem_mul]
  constructor
  · intro h
    obtain ⟨front, hfront, back, hback, hvalue⟩ := h
    exact ⟨front, back, hfront, hback, hvalue⟩
  · intro h
    obtain ⟨front, back, hfront, hback, hvalue⟩ := h
    exact ⟨front, hfront, back, hback, hvalue⟩

theorem mem_language_star_one :
    value ∈ (star (one test)).language ↔ ∀ c ∈ value, test c = true := by
  rw [language, Language.mem_kstar]
  constructor
  · intro h
    obtain ⟨parts, hvalue, hparts⟩ := h
    intro c hc
    rw [hvalue] at hc
    obtain ⟨part, hpart, hmem⟩ := mem_flatten.mp hc
    obtain ⟨d, htest, hsingle⟩ := mem_language_one.mp (hparts part hpart)
    rw [hsingle, mem_singleton] at hmem
    rwa [hmem]
  · intro h
    refine ⟨value.map fun c => [c], ?_, ?_⟩
    · induction value with
      | nil => rfl
      | cons c value ih =>
        have hrest := ih fun d hd => h d (mem_cons_of_mem c hd)
        rw [map_cons, flatten_cons, ← hrest]
        rfl
    · intro part hpart
      obtain ⟨c, hc, rfl⟩ := mem_map.mp hpart
      exact ⟨c, h c hc, rfl⟩

theorem mem_language_plus_one : value ∈ (plus (one test)).language ↔
      value ≠ [] ∧ ∀ c ∈ value, test c = true := by
  rw [plus, mem_language_seq]
  constructor
  · intro h
    obtain ⟨front, back, hfront, hback, hvalue⟩ := h
    obtain ⟨c, htest, hsingle⟩ := mem_language_one.mp hfront
    rw [← hvalue, hsingle]
    refine ⟨cons_ne_nil _ _, ?_⟩
    intro d hd
    rcases mem_cons.mp hd with hsame | hd
    · rwa [hsame]
    · exact mem_language_star_one.mp hback d hd
  · intro h
    obtain ⟨hne, hall⟩ := h
    cases value with
    | nil => exact absurd rfl hne
    | cons c value =>
      refine ⟨[c], value, ⟨c, hall c mem_cons_self, rfl⟩, ?_, rfl⟩
      exact mem_language_star_one.mpr fun d hd =>
        hall d (mem_cons_of_mem c hd)

/-! ## Matching -/

def nullable : Regex α → Bool
  | fail => false
  | empty => true
  | one _ => false
  | either first second => first.nullable || second.nullable
  | seq first second => first.nullable && second.nullable
  | star _ => true

def derivative (c : α) : Regex α → Regex α
  | fail => fail
  | empty => fail
  | one test => if test c then empty else fail
  | either first second => either (first.derivative c) (second.derivative c)
  | seq first second =>
    if first.nullable then
      either (seq (first.derivative c) second) (second.derivative c)
    else seq (first.derivative c) second
  | star body => seq (body.derivative c) (star body)

/-- `re.fullmatch` -/
def fullmatch : Regex α → List α → Bool
  | regex, [] => regex.nullable
  | regex, c :: value => (regex.derivative c).fullmatch value

variable {regex : Regex α}

theorem nullable_iff : regex.nullable = true ↔ [] ∈ regex.language := by
  induction regex with
  | fail => simp [nullable, language]
  | empty => simp [nullable, language]
  | one test => simp [nullable, mem_language_one]
  | either first second ihfirst ihsecond =>
    rw [nullable, Bool.or_eq_true, ihfirst, ihsecond, mem_language_either]
  | seq first second ihfirst ihsecond =>
    rw [nullable, Bool.and_eq_true, ihfirst, ihsecond, mem_language_seq]
    simp
  | star body _ => simp [nullable, language, Language.nil_mem_kstar]

variable {c : α}

theorem cons_mem_language_seq : c :: value ∈ (seq first second).language ↔
      (∃ front back, c :: front ∈ first.language ∧
        back ∈ second.language ∧ front ++ back = value) ∨
      [] ∈ first.language ∧ c :: value ∈ second.language := by
  rw [mem_language_seq]
  constructor
  · intro h
    obtain ⟨front, back, hfront, hback, hvalue⟩ := h
    cases front with
    | nil =>
      rw [nil_append] at hvalue
      exact Or.inr ⟨hfront, hvalue ▸ hback⟩
    | cons d front =>
      rw [cons_append, List.cons.injEq] at hvalue
      obtain ⟨rfl, hvalue⟩ := hvalue
      exact Or.inl ⟨front, back, hfront, hback, hvalue⟩
  · intro h
    rcases h with ⟨front, back, hfront, hback, hvalue⟩ | ⟨hempty, hback⟩
    · exact ⟨c :: front, back, hfront, hback, by rw [← hvalue]; rfl⟩
    · exact ⟨[], c :: value, hempty, hback, rfl⟩

theorem cons_mem_language_star {body : Regex α} :
    c :: value ∈ (star body).language ↔ ∃ front back,
      c :: front ∈ body.language ∧ back ∈ (star body).language ∧ front ++ back = value := by
  constructor
  · intro h
    obtain ⟨parts, hvalue, hparts⟩ :=
      Language.mem_kstar_iff_exists_nonempty.mp h
    cases parts with
    | nil => cases hvalue
    | cons part parts =>
      obtain ⟨hpart, hne⟩ := hparts part mem_cons_self
      cases part with
      | nil => exact absurd rfl hne
      | cons d front =>
        rw [flatten_cons, cons_append, List.cons.injEq] at hvalue
        obtain ⟨rfl, hvalue⟩ := hvalue
        refine ⟨front, parts.flatten, hpart, ?_, hvalue.symm⟩
        exact Language.join_mem_kstar fun other hother =>
          (hparts other (mem_cons_of_mem _ hother)).1
  · intro h
    obtain ⟨front, back, hfront, hback, hvalue⟩ := h
    obtain ⟨parts, rfl, hparts⟩ := Language.mem_kstar.mp hback
    refine Language.mem_kstar.mpr ⟨(c :: front) :: parts, ?_, ?_⟩
    · rw [flatten_cons, cons_append, hvalue]
    · intro part hpart
      rcases mem_cons.mp hpart with rfl | hpart
      · exact hfront
      · exact hparts part hpart

theorem mem_language_derivative :
    value ∈ (regex.derivative c).language ↔ c :: value ∈ regex.language := by
  induction regex generalizing value with
  | fail => simp [derivative, language]
  | empty => simp [derivative, language]
  | one test =>
    rw [mem_language_one]
    by_cases htest : test c = true
    · simp [derivative, htest, language, Language.mem_one]
    · rw [derivative, if_neg htest]
      apply iff_of_false (Language.notMem_zero _)
      intro h
      obtain ⟨d, hd, hsame⟩ := h
      rw [List.cons.injEq] at hsame
      exact htest (hsame.1 ▸ hd)
  | either first second ihfirst ihsecond =>
    rw [derivative, mem_language_either, mem_language_either, ihfirst, ihsecond]
  | seq first second ihfirst ihsecond =>
    have hseq : value ∈ (seq (first.derivative c) second).language ↔
        ∃ front back, c :: front ∈ first.language ∧
          back ∈ second.language ∧ front ++ back = value := by
      simp only [mem_language_seq, ihfirst]
    rw [cons_mem_language_seq, ← nullable_iff, derivative]
    split
    · next hnull =>
        rw [mem_language_either, hseq, ihsecond]
        simp [hnull]
    · next hnull =>
        rw [hseq]
        simp [hnull]
  | star body ih =>
    rw [cons_mem_language_star, derivative, mem_language_seq]
    simp only [ih]

theorem fullmatch_iff : regex.fullmatch value = true ↔ value ∈ regex.language := by
  induction value generalizing regex with
  | nil => exact nullable_iff
  | cons c value ih => rw [fullmatch, ih, mem_language_derivative]

end Regex

end PyFly.Library
