import PyFly.SqlSpecification

/-!
# What a composed specification selects

Under a statement which has a WHERE clause a no-op is true wherever it
occurs.  Under one which has none, `|` and `~` find no clause to combine for
an operand without column predicates, and leave it out.
-/

namespace PyFly.Data

open Library

variable {α A : Type}

namespace Specification

/-- The specification joins one condition to any statement, which is `value`
on the row. -/
def Adds (row : A → Truth) (spec : Specification A) (value : Bool) : Prop :=
  ∃ clause, (∀ query, spec.predicate query = .ok (query.where_ clause)) ∧
    clause.truth row = .ofBool value

theorem adds_column (row : A → Truth) (clause : ColumnElement A)
    (value : Bool) (htruth : clause.truth row = .ofBool value) :
    (column (.ok clause)).Adds row value :=
  ⟨clause, fun _ => rfl, htruth⟩

/-- `clause` is `existing` joined by a condition which is `value` on the row;
the two parts need not be separate. -/
structure Narrows (row : A → Truth) (existing clause : ColumnElement A)
    (value : Bool) : Prop where
  settled : ∀ before, existing.truth row = .ofBool before →
    clause.truth row = .ofBool (before && value)
  within : (clause.truth row).holds = true → (existing.truth row).holds = true

theorem Narrows.holds_eq {row : A → Truth} {existing clause : ColumnElement A} {value : Bool}
    (hnarrow : Narrows row existing clause value) :
    (clause.truth row).holds = ((existing.truth row).holds && value) := by
  cases hholds : (existing.truth row).holds with
  | true =>
    rw [hnarrow.settled true (Truth.holds_eq_true.mp hholds)]
    simp
  | false =>
    rw [Bool.false_and, Bool.eq_false_iff]
    intro hclause
    rw [hnarrow.within hclause] at hholds
    cases hholds

end Specification

namespace SpecExpr

open Specification

variable {row : A → Truth} {spec : α → Specification A} {value : α → Bool}

theorem predicate_filtered (expr : SpecExpr α)
    (hatoms : ∀ a ∈ expr.atoms, (spec a).Adds row (value a))
    (existing : ColumnElement A) :
    ∃ clause, (expr.specification spec).predicate ⟨some existing⟩ = .ok ⟨some clause⟩ ∧
      Narrows row existing clause (expr.meaning value) := by
  induction expr generalizing existing with
  | atom a =>
    obtain ⟨clause, hpredicate, htruth⟩ := hatoms a (by simp [atoms])
    refine ⟨.and_ existing clause, hpredicate _, ?_, ?_⟩
    · intro before hbefore
      simp [hbefore, htruth, meaning]
    · intro hholds
      simp only [ColumnElement.truth_and_, Truth.holds_and, Bool.and_eq_true]
        at hholds
      exact hholds.1
  | noop =>
    refine ⟨existing, rfl, ?_, id⟩
    intro before hbefore
    simp [hbefore, meaning]
  | and left right ihLeft ihRight =>
    obtain ⟨filtered, hleft, hnarrowLeft⟩ := ihLeft
      (fun a ha => hatoms a (by simp [atoms, ha])) existing
    obtain ⟨clause, hright, hnarrowRight⟩ := ihRight
      (fun a ha => hatoms a (by simp [atoms, ha])) filtered
    refine ⟨clause, ?_, ?_, ?_⟩
    · simp [specification, Specification.and, hleft, hright, bind, Except.bind]
    · intro before hbefore
      rw [hnarrowRight.settled _ (hnarrowLeft.settled _ hbefore)]
      simp [meaning, Bool.and_assoc]
    · intro hholds
      exact hnarrowLeft.within (hnarrowRight.within hholds)
  | or left right ihLeft ihRight =>
    obtain ⟨leftClause, hleft, hnarrowLeft⟩ := ihLeft
      (fun a ha => hatoms a (by simp [atoms, ha])) existing
    obtain ⟨rightClause, hright, hnarrowRight⟩ := ihRight
      (fun a ha => hatoms a (by simp [atoms, ha])) existing
    refine ⟨.and_ existing (.or_ leftClause rightClause), ?_, ?_, ?_⟩
    · simp [specification, Specification.or, hleft, hright, bind,
        Except.bind, Select.where_, pure, Except.pure]
    · intro before hbefore
      simp only [ColumnElement.truth_and_, ColumnElement.truth_or_, hbefore,
        hnarrowLeft.settled _ hbefore, hnarrowRight.settled _ hbefore,
        Truth.ofBool_or, Truth.ofBool_and, meaning]
      cases before <;> simp
    · intro hholds
      simp only [ColumnElement.truth_and_, Truth.holds_and, Bool.and_eq_true]
        at hholds
      exact hholds.1
  | invert operand ih =>
    obtain ⟨modified, hoperand, hnarrow⟩ := ih hatoms existing
    refine ⟨.and_ existing (.not_ modified), ?_, ?_, ?_⟩
    · simp [specification, Specification.invert, hoperand, bind,
        Except.bind, Select.where_, pure, Except.pure]
    · intro before hbefore
      simp only [ColumnElement.truth_and_, ColumnElement.truth_not_, hbefore,
        hnarrow.settled _ hbefore, Truth.ofBool_not, Truth.ofBool_and,
        meaning]
      cases before <;> simp
    · intro hholds
      simp only [ColumnElement.truth_and_, Truth.holds_and, Bool.and_eq_true]
        at hholds
      exact hholds.1

theorem cleanMeaning_of_not_contributes (expr : SpecExpr α)
    (hbare : expr.contributes = false) : expr.cleanMeaning value = true := by
  induction expr with
  | atom a => simp [contributes] at hbare
  | noop => rfl
  | and left right ihLeft ihRight =>
    simp only [contributes, Bool.or_eq_false_iff] at hbare
    simp [cleanMeaning, hbare.1, ihRight hbare.2]
  | or left right ihLeft ihRight =>
    simp only [contributes, Bool.or_eq_false_iff] at hbare
    simp [cleanMeaning, hbare.1, hbare.2]
  | invert operand ih =>
    simp only [contributes] at hbare
    simp [cleanMeaning, hbare]

theorem predicate_clean_of_not_contributes (expr : SpecExpr α)
    (hbare : expr.contributes = false) :
    (expr.specification spec).predicate ⟨none⟩ = .ok ⟨none⟩ := by
  induction expr with
  | atom a => simp [contributes] at hbare
  | noop => rfl
  | and left right ihLeft ihRight =>
    simp only [contributes, Bool.or_eq_false_iff] at hbare
    simp [specification, Specification.and, ihLeft hbare.1, ihRight hbare.2, bind, Except.bind]
  | or left right ihLeft ihRight =>
    simp only [contributes, Bool.or_eq_false_iff] at hbare
    simp [specification, Specification.or, ihLeft hbare.1,
      ihRight hbare.2, bind, Except.bind, pure, Except.pure]
  | invert operand ih =>
    simp only [contributes] at hbare
    simp [specification, Specification.invert, ih hbare, bind, Except.bind, pure, Except.pure]

theorem predicate_clean (expr : SpecExpr α)
    (hatoms : ∀ a ∈ expr.atoms, (spec a).Adds row (value a))
    (hcontributes : expr.contributes = true) :
    ∃ clause, (expr.specification spec).predicate ⟨none⟩ = .ok ⟨some clause⟩ ∧
      clause.truth row = .ofBool (expr.cleanMeaning value) := by
  induction expr with
  | atom a =>
    obtain ⟨clause, hpredicate, htruth⟩ := hatoms a (by simp [atoms])
    exact ⟨clause, hpredicate _, htruth⟩
  | noop => simp [contributes] at hcontributes
  | and left right ihLeft ihRight =>
    have hatomsLeft : ∀ a ∈ left.atoms, (spec a).Adds row (value a) :=
      fun a ha => hatoms a (by simp [atoms, ha])
    have hatomsRight : ∀ a ∈ right.atoms, (spec a).Adds row (value a) :=
      fun a ha => hatoms a (by simp [atoms, ha])
    cases hcase : left.contributes with
    | true =>
      obtain ⟨filtered, hleft, htruth⟩ := ihLeft hatomsLeft hcase
      obtain ⟨clause, hright, hnarrow⟩ :=
        predicate_filtered right hatomsRight filtered
      refine ⟨clause, ?_, ?_⟩
      · simp [specification, Specification.and, hleft, hright, bind, Except.bind]
      · simp [cleanMeaning, hcase, hnarrow.settled _ htruth]
    | false =>
      simp only [contributes, hcase, Bool.false_or] at hcontributes
      obtain ⟨clause, hright, htruth⟩ :=
        ihRight hatomsRight hcontributes
      refine ⟨clause, ?_, ?_⟩
      · simp [specification, Specification.and,
          predicate_clean_of_not_contributes left hcase, hright, bind,
          Except.bind]
      · simp [cleanMeaning, hcase, htruth]
  | or left right ihLeft ihRight =>
    have hatomsLeft : ∀ a ∈ left.atoms, (spec a).Adds row (value a) :=
      fun a ha => hatoms a (by simp [atoms, ha])
    have hatomsRight : ∀ a ∈ right.atoms, (spec a).Adds row (value a) :=
      fun a ha => hatoms a (by simp [atoms, ha])
    cases hcaseLeft : left.contributes with
    | true =>
      obtain ⟨leftClause, hleft, htruthLeft⟩ :=
        ihLeft hatomsLeft hcaseLeft
      cases hcaseRight : right.contributes with
      | true =>
        obtain ⟨rightClause, hright, htruthRight⟩ :=
          ihRight hatomsRight hcaseRight
        refine ⟨.or_ leftClause rightClause, ?_, ?_⟩
        · simp [specification, Specification.or, hleft, hright, bind,
            Except.bind, Select.where_, pure, Except.pure]
        · simp [cleanMeaning, hcaseLeft, hcaseRight, htruthLeft, htruthRight]
      | false =>
        refine ⟨leftClause, ?_, ?_⟩
        · simp [specification, Specification.or, hleft,
            predicate_clean_of_not_contributes right hcaseRight, bind,
            Except.bind, pure, Except.pure]
        · simp [cleanMeaning, hcaseLeft, hcaseRight, htruthLeft]
    | false =>
      simp only [contributes, hcaseLeft, Bool.false_or] at hcontributes
      obtain ⟨rightClause, hright, htruthRight⟩ :=
        ihRight hatomsRight hcontributes
      refine ⟨rightClause, ?_, ?_⟩
      · simp [specification, Specification.or, hright,
          predicate_clean_of_not_contributes left hcaseLeft, bind,
          Except.bind, pure, Except.pure]
      · simp [cleanMeaning, hcaseLeft, hcontributes, htruthRight]
  | invert operand ih =>
    simp only [contributes] at hcontributes
    obtain ⟨modified, hoperand, htruth⟩ := ih hatoms hcontributes
    refine ⟨.not_ modified, ?_, ?_⟩
    · simp [specification, Specification.invert, hoperand, bind,
        Except.bind, Select.where_, pure, Except.pure]
    · simp [cleanMeaning, hcontributes, htruth]

/-- No no-op occurs in the expression. -/
def NoopFree : SpecExpr α → Prop
  | atom _ => True
  | noop => False
  | and left right => left.NoopFree ∧ right.NoopFree
  | or left right => left.NoopFree ∧ right.NoopFree
  | invert operand => operand.NoopFree

theorem NoopFree.contributes_eq_true {expr : SpecExpr α}
    (hfree : expr.NoopFree) : expr.contributes = true := by
  induction expr with
  | atom a => rfl
  | noop => exact hfree.elim
  | and left right ihLeft ihRight =>
    simp [contributes, ihLeft hfree.1]
  | or left right ihLeft ihRight =>
    simp [contributes, ihLeft hfree.1]
  | invert operand ih => exact ih hfree

theorem NoopFree.cleanMeaning_eq {expr : SpecExpr α} (hfree : expr.NoopFree) :
    expr.cleanMeaning value = expr.meaning value := by
  induction expr with
  | atom a => rfl
  | noop => exact hfree.elim
  | and left right ihLeft ihRight =>
    simp [cleanMeaning, meaning, hfree.1.contributes_eq_true, ihLeft hfree.1]
  | or left right ihLeft ihRight =>
    simp [cleanMeaning, meaning, hfree.1.contributes_eq_true,
      hfree.2.contributes_eq_true, ihLeft hfree.1, ihRight hfree.2]
  | invert operand ih =>
    have hoperand : operand.NoopFree := hfree
    simp [cleanMeaning, meaning, hoperand.contributes_eq_true, ih hoperand]

def columnPredicate (comparison : A) : Specification A :=
  Specification.column (.ok (.comparison comparison))

theorem toPredicate_selects (expr : SpecExpr A) (query : Select A) (value : A → Bool) :
    ∃ statement, (expr.specification columnPredicate).toPredicate query = .ok statement ∧
      statement.selects (fun a => .ofBool (value a)) =
        (query.selects (fun a => .ofBool (value a)) &&
          if query.whereclause.isSome then expr.meaning value
          else expr.cleanMeaning value) := by
  have hatoms : ∀ a ∈ expr.atoms, (columnPredicate a).Adds
      (fun a => Truth.ofBool (value a)) (value a) :=
    fun a _ => adds_column _ _ _ rfl
  obtain ⟨_ | existing⟩ := query
  · cases hcase : expr.contributes with
    | true =>
      obtain ⟨clause, hpredicate, htruth⟩ :=
        predicate_clean expr hatoms hcase
      refine ⟨_, hpredicate, ?_⟩
      simp [Select.selects, htruth]
    | false =>
      refine ⟨_, predicate_clean_of_not_contributes expr hcase, ?_⟩
      simp [Select.selects, cleanMeaning_of_not_contributes expr hcase]
  · obtain ⟨clause, hpredicate, hnarrow⟩ :=
      predicate_filtered expr hatoms existing
    refine ⟨_, hpredicate, ?_⟩
    simp [Select.selects, hnarrow.holds_eq]

/-- On a clean statement `noop | p` selects by `p`, though a no-op alone
selects every row. -/
theorem not_selects_noop_or : ¬ ∀ (expr : SpecExpr String) (query : Select String)
      (value : String → Bool) (statement : Select String),
      (expr.specification columnPredicate).toPredicate query = .ok statement →
      statement.selects (fun a => .ofBool (value a)) =
        (query.selects (fun a => .ofBool (value a)) && expr.meaning value) := by
  intro hclaim
  have hselects := hclaim (.or .noop (.atom "active")) ⟨none⟩
    (fun _ => false) ⟨some (.comparison "active")⟩ rfl
  exact absurd hselects (by decide)

end SpecExpr

end PyFly.Data
