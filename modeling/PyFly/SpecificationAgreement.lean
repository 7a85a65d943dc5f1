import PyFly.FilterOperators
import PyFly.ColumnAgreement

/-!
# Agreement of the specification adapters

Outside of a negation the two adapters agree on what a criterion accepts.
Inside of one they have to agree on what it refuses, and the clauses which
the statement already carries are combined again.
-/

namespace PyFly.Data

open Library

variable {V : Type} [Scalar V] {fold : Char → Char} {row : Row V}

namespace Specification

/-- The specification joins one condition to any statement, which is true on
the row exactly when `value` is. -/
def Filters {A : Type} (row : A → Truth) (spec : Specification A) (value : Bool) : Prop :=
  ∃ clause, (∀ query, spec.predicate query = .ok (query.where_ clause)) ∧
    (clause.truth row).holds = value

theorem filters_column {built : Clause V} {document : MongoDocument V}
    (hagrees : Agrees fold row built document) :
    (column built).Filters (Comparison.truth row) (document.accepts fold row) := by
  obtain ⟨clause, rfl, hholds⟩ := hagrees
  exact ⟨clause, fun _ => rfl, hholds⟩

theorem adds_column_of_settled {built : Clause V} {document : MongoDocument V}
    (hsettled : AgreesSettled fold row built document) :
    (column built).Adds (Comparison.truth row) (document.accepts fold row) := by
  obtain ⟨clause, rfl, htruth⟩ := hsettled
  exact adds_column _ _ _ htruth

end Specification

namespace Criterion

def document (criterion : Criterion V) : MongoDocument V :=
  criterion.mongoSpecification.predicate .empty

omit [Scalar V] in
theorem mongoSpecification_predicate (criterion : Criterion V) (query : MongoDocument V) :
    criterion.mongoSpecification.predicate query = criterion.document := by
  cases criterion <;> rfl

omit [Scalar V] in
theorem document_nonempty (criterion : Criterion V) : criterion.document.nonempty = true := by
  cases criterion <;> rfl

theorem filters (criterion : Criterion V) (hcomparable : criterion.Comparable)
    (hstored : row criterion.field ≠ none) :
    criterion.specification.Filters (Comparison.truth row)
      (criterion.document.accepts fold row) := by
  obtain ⟨x, hx⟩ := Option.ne_none_iff_exists'.mp hstored
  cases criterion with
  | eq field value =>
    exact Specification.filters_column (eq_settled hx value).agrees
  | neq field value =>
    exact Specification.filters_column (ne_settled hx value).agrees
  | gt field value =>
    exact Specification.filters_column (order_settled hx .gt hcomparable).agrees
  | gte field value =>
    exact Specification.filters_column (order_settled hx .ge hcomparable).agrees
  | lt field value =>
    exact Specification.filters_column (order_settled hx .lt hcomparable).agrees
  | lte field value =>
    exact Specification.filters_column (order_settled hx .le hcomparable).agrees
  | inList field values =>
    exact Specification.filters_column (in_agrees hx values)
  | between field low high =>
    exact Specification.filters_column (between_agrees hx low high)
  | isNull field =>
    exact Specification.filters_column (isNull_settled hx).agrees

theorem adds (criterion : Criterion V) (hcomparable : criterion.Comparable)
    (hsettled : criterion.Settled) (hstored : row criterion.field ≠ none) :
    criterion.specification.Adds (Comparison.truth row)
      (criterion.document.accepts fold row) := by
  obtain ⟨x, hx⟩ := Option.ne_none_iff_exists'.mp hstored
  cases criterion with
  | eq field value =>
    exact Specification.adds_column_of_settled (eq_settled hx value)
  | neq field value =>
    exact Specification.adds_column_of_settled (ne_settled hx value)
  | gt field value =>
    exact Specification.adds_column_of_settled (order_settled hx .gt hcomparable)
  | gte field value =>
    exact Specification.adds_column_of_settled (order_settled hx .ge hcomparable)
  | lt field value =>
    exact Specification.adds_column_of_settled (order_settled hx .lt hcomparable)
  | lte field value =>
    exact Specification.adds_column_of_settled (order_settled hx .le hcomparable)
  | inList field values =>
    exact Specification.adds_column_of_settled (in_settled hx hsettled)
  | between field low high =>
    exact Specification.adds_column_of_settled (between_settled hx hsettled.1 hsettled.2)
  | isNull field =>
    exact Specification.adds_column_of_settled (isNull_settled hx)

end Criterion

namespace SpecExpr

open Specification

/-- The order operands of an expression are values, and below a `~` so are
the operands of `in_list` and `between`. -/
def Admissible : SpecExpr (Criterion V) → Prop
  | atom criterion => criterion.Comparable
  | noop => True
  | and left right => left.Admissible ∧ right.Admissible
  | or left right => left.Admissible ∧ right.Admissible
  | invert operand =>
    ∀ criterion ∈ operand.atoms, criterion.Comparable ∧ criterion.Settled

def documentMeaning (fold : Char → Char) (row : Row V) (expr : SpecExpr (Criterion V)) : Bool :=
  expr.meaning fun criterion => criterion.document.accepts fold row

theorem mongoSpecification_accepts (expr : SpecExpr (Criterion V))
    (hfree : expr.NoopFree) (query : MongoDocument V) :
    ((expr.mongoSpecification Criterion.mongoSpecification).predicate query).nonempty = true ∧
      ((expr.mongoSpecification Criterion.mongoSpecification).predicate
        query).accepts fold row = expr.documentMeaning fold row := by
  induction expr with
  | atom criterion =>
    rw [mongoSpecification, criterion.mongoSpecification_predicate]
    exact ⟨criterion.document_nonempty, rfl⟩
  | noop => exact hfree.elim
  | and left right ihLeft ihRight =>
    obtain ⟨hleft, hacceptsLeft⟩ := ihLeft hfree.1
    obtain ⟨hright, hacceptsRight⟩ := ihRight hfree.2
    rw [mongoSpecification, MongoSpecification.and_predicate hleft hright]
    refine ⟨rfl, ?_⟩
    simp [hacceptsLeft, hacceptsRight, documentMeaning, meaning]
  | or left right ihLeft ihRight =>
    obtain ⟨hleft, hacceptsLeft⟩ := ihLeft hfree.1
    obtain ⟨hright, hacceptsRight⟩ := ihRight hfree.2
    rw [mongoSpecification, MongoSpecification.or_predicate hleft hright]
    refine ⟨rfl, ?_⟩
    simp [hacceptsLeft, hacceptsRight, documentMeaning, meaning]
  | invert operand ih =>
    obtain ⟨hoperand, haccepts⟩ := ih hfree
    rw [mongoSpecification, MongoSpecification.invert_predicate hoperand]
    refine ⟨rfl, ?_⟩
    simp [haccepts, documentMeaning, meaning]

theorem selects_invert (operand : SpecExpr (Criterion V)) (hfree : operand.NoopFree)
    (hsettled : ∀ criterion ∈ operand.atoms, criterion.Comparable ∧ criterion.Settled)
    (hstored : ∀ criterion ∈ operand.atoms, row criterion.field ≠ none)
    (query : Select (Comparison V)) :
    ∃ clause, (operand.invert.specification Criterion.specification).predicate
        query = .ok ⟨some clause⟩ ∧
      (clause.truth (Comparison.truth row)).holds =
        (query.selects (Comparison.truth row) && !operand.documentMeaning fold row) := by
  have hatoms : ∀ criterion ∈ operand.atoms, criterion.specification.Adds (Comparison.truth row)
        (criterion.document.accepts fold row) := by
    intro criterion hmem
    obtain ⟨hcomparable, hoperands⟩ := hsettled criterion hmem
    exact criterion.adds hcomparable hoperands (hstored criterion hmem)
  obtain ⟨_ | existing⟩ := query
  · obtain ⟨modified, hpredicate, htruth⟩ :=
      predicate_clean operand hatoms hfree.contributes_eq_true
    refine ⟨.not_ modified, ?_, ?_⟩
    · simp [specification, Specification.invert, hpredicate, bind,
        Except.bind, Select.where_, pure, Except.pure]
    · rw [hfree.cleanMeaning_eq] at htruth
      simp [htruth, Select.selects, documentMeaning]
  · obtain ⟨modified, hpredicate, hnarrow⟩ :=
      predicate_filtered operand hatoms existing
    refine ⟨.and_ existing (.not_ modified), ?_, ?_⟩
    · simp [specification, Specification.invert, hpredicate, bind,
        Except.bind, Select.where_, pure, Except.pure]
    · simp only [ColumnElement.truth_and_, ColumnElement.truth_not_,
        Truth.holds_and, Truth.holds_not,
        Select.selects, documentMeaning]
      cases hholds : (existing.truth (Comparison.truth row)).holds with
      | false => simp
      | true =>
        rw [hnarrow.settled true (Truth.holds_eq_true.mp hholds)]
        simp

theorem specification_selects (expr : SpecExpr (Criterion V))
    (hfree : expr.NoopFree) (hadmissible : expr.Admissible)
    (hstored : ∀ criterion ∈ expr.atoms, row criterion.field ≠ none)
    (query : Select (Comparison V)) :
    ∃ clause, (expr.specification Criterion.specification).predicate query = .ok ⟨some clause⟩ ∧
      (clause.truth (Comparison.truth row)).holds =
        (query.selects (Comparison.truth row) && expr.documentMeaning fold row) := by
  induction expr generalizing query with
  | atom criterion =>
    have hfilters : criterion.specification.Filters (Comparison.truth row)
        (criterion.document.accepts fold row) :=
      criterion.filters hadmissible (hstored criterion (by simp [atoms]))
    obtain ⟨clause, hpredicate, hholds⟩ := hfilters
    obtain ⟨_ | existing⟩ := query
    · refine ⟨clause, hpredicate _, ?_⟩
      simp [hholds, Select.selects, documentMeaning, meaning]
    · refine ⟨.and_ existing clause, hpredicate _, ?_⟩
      simp [hholds, Select.selects, documentMeaning, meaning]
  | noop => exact hfree.elim
  | and left right ihLeft ihRight =>
    obtain ⟨filtered, hleft, hholdsLeft⟩ := ihLeft hfree.1 hadmissible.1
      (fun criterion h => hstored criterion (by simp [atoms, h])) query
    obtain ⟨clause, hright, hholdsRight⟩ := ihRight hfree.2 hadmissible.2
      (fun criterion h => hstored criterion (by simp [atoms, h]))
      ⟨some filtered⟩
    refine ⟨clause, ?_, ?_⟩
    · simp [specification, Specification.and, hleft, hright, bind, Except.bind]
    · rw [hholdsRight]
      simp only [Select.selects] at hholdsLeft ⊢
      rw [hholdsLeft, Bool.and_assoc]
      rfl
  | or left right ihLeft ihRight =>
    obtain ⟨leftClause, hleft, hholdsLeft⟩ := ihLeft hfree.1 hadmissible.1
      (fun criterion h => hstored criterion (by simp [atoms, h])) query
    obtain ⟨rightClause, hright, hholdsRight⟩ :=
      ihRight hfree.2 hadmissible.2
        (fun criterion h => hstored criterion (by simp [atoms, h])) query
    have hpredicate : ((or left right).specification Criterion.specification).predicate
          query = .ok (query.where_ (.or_ leftClause rightClause)) := by
      simp [specification, Specification.or, hleft, hright, bind,
        Except.bind, pure, Except.pure]
    simp only [documentMeaning] at hholdsLeft hholdsRight
    obtain ⟨_ | existing⟩ := query
    · refine ⟨_, hpredicate, ?_⟩
      simp [hholdsLeft, hholdsRight, Select.selects, documentMeaning, meaning]
    · refine ⟨_, hpredicate, ?_⟩
      simp only [ColumnElement.truth_and_, ColumnElement.truth_or_,
        Truth.holds_and, Truth.holds_or,
        hholdsLeft, hholdsRight, Select.selects, documentMeaning, meaning]
      cases (existing.truth (Comparison.truth row)).holds <;> simp
  | invert operand ih =>
    exact selects_invert operand hfree hadmissible hstored query

/-- Both adapters select a row or reject it alike. -/
theorem specifications_agree (expr : SpecExpr (Criterion V))
    (hfree : expr.NoopFree) (hadmissible : expr.Admissible)
    (hstored : ∀ criterion ∈ expr.atoms, row criterion.field ≠ none) :
    ∃ statement, (expr.specification Criterion.specification).toPredicate ⟨none⟩ =
        .ok statement ∧
      statement.selects (Comparison.truth row) =
        ((expr.mongoSpecification Criterion.mongoSpecification).toPredicate
          .empty).accepts fold row := by
  obtain ⟨clause, hpredicate, hholds⟩ :=
    @specification_selects V _ fold row expr hfree hadmissible hstored ⟨none⟩
  refine ⟨⟨some clause⟩, hpredicate, ?_⟩
  rw [MongoSpecification.toPredicate, (mongoSpecification_accepts expr hfree .empty).2]
  simpa [Select.selects] using hholds

/-- On a row which stores 5 the SQL condition of `~in_list("age", [None])` is
unknown, and the document matches. -/
theorem not_specifications_agree_in_none :
    ¬ ∀ (expr : SpecExpr (Criterion ℤ)) (row : Row ℤ), expr.NoopFree →
      (∀ criterion ∈ expr.atoms, row criterion.field ≠ none) →
      ∃ statement, (expr.specification Criterion.specification).toPredicate ⟨none⟩ =
          .ok statement ∧
        statement.selects (Comparison.truth row) = ((expr.mongoSpecification
            Criterion.mongoSpecification).toPredicate .empty).accepts id
              row := by
  intro hclaim
  obtain ⟨statement, hstatement, hselects⟩ :=
    hclaim (.invert (.atom (.inList "age" [none]))) (fun _ => some 5) trivial
      (fun _ _ => by simp)
  have hbuilt : statement = ⟨some (.not_ (.comparison (.in_ "age" [none])))⟩ :=
    (Except.ok.inj hstatement).symm
  rw [hbuilt] at hselects
  exact absurd hselects (by decide)

theorem specifications_agree_adults : ∃ statement,
      ((SpecExpr.and (.atom (.gte "age" (some (18 : ℤ))))
          (.invert (.atom (.inList "age" [some 20])))).specification
            Criterion.specification).toPredicate ⟨none⟩ = .ok statement ∧
      statement.selects (Comparison.truth fun _ => some 19) =
        (((SpecExpr.and (.atom (.gte "age" (some (18 : ℤ))))
          (.invert (.atom (.inList "age" [some 20])))).mongoSpecification
            Criterion.mongoSpecification).toPredicate .empty).accepts id
              (fun _ => some 19) := by
  have hsettled : ∀ criterion ∈ (SpecExpr.atom (Criterion.inList "age" [some (20 : ℤ)])).atoms,
      criterion.Comparable ∧ criterion.Settled := by
    simp [atoms, Criterion.Comparable, Criterion.Settled]
  exact specifications_agree _ ⟨trivial, trivial⟩
    ⟨⟨18, rfl, rfl⟩, hsettled⟩ (fun _ _ => Option.some_ne_none _)

end SpecExpr

end PyFly.Data
