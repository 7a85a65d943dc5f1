import PyFly.MongoSpecification

/-!
# Conditions and documents which agree

On a row which stores a value under the field, the condition of a column
operator is true exactly when the document of the same operator matches.  Its
negation needs more: a condition with a missing operand can be unknown, and
is then not true when it is negated either.
-/

namespace PyFly.Data

open Library List

variable {V : Type} [Scalar V] {fold : Char → Char} {row : Row V}

def Agrees (fold : Char → Char) (row : Row V) (built : Clause V)
    (document : MongoDocument V) : Prop :=
  ∃ clause, built = .ok clause ∧
    (clause.truth (Comparison.truth row)).holds = document.accepts fold row

def AgreesSettled (fold : Char → Char) (row : Row V) (built : Clause V)
    (document : MongoDocument V) : Prop :=
  ∃ clause, built = .ok clause ∧ clause.truth (Comparison.truth row) =
      .ofBool (document.accepts fold row)

theorem AgreesSettled.agrees {built : Clause V} {document : MongoDocument V}
    (hsettled : AgreesSettled fold row built document) :
    Agrees fold row built document := by
  obtain ⟨clause, hbuilt, htruth⟩ := hsettled
  exact ⟨clause, hbuilt, by rw [htruth, Truth.holds_ofBool]⟩

theorem holds_compareNullable {op : ComparisonOp} (hop : op ≠ .ne) (x : V)
    (operand : Option V) :
    (Comparison.compareNullable op (some x) operand).holds = op.bracketed (some x) operand := by
  cases operand with
  | none => simp [hop, Truth.holds]
  | some v => simp

section Operators

variable {column : String} {x : V} (hx : row column = some x)
include hx

theorem eq_settled (operand : Option V) :
    AgreesSettled fold row (Column.eq column operand) (.field column operand) := by
  cases operand with
  | none =>
    refine ⟨_, rfl, ?_⟩
    simp [hx]
  | some v =>
    refine ⟨_, rfl, ?_⟩
    simp [hx]

theorem ne_settled (operand : Option V) : AgreesSettled fold row (Column.ne column operand)
      (.operators column [.compare .ne operand]) := by
  cases operand with
  | none =>
    refine ⟨_, rfl, ?_⟩
    simp [hx]
  | some v =>
    refine ⟨_, rfl, ?_⟩
    simp [hx]

theorem order_settled (op : ComparisonOp) {operand : Option V}
    (hoperand : ∃ v, operand = some v ∧ Scalar.isBool v = false) :
    AgreesSettled fold row (Column.order op column operand)
      (.operators column [.compare op operand]) := by
  obtain ⟨v, rfl, hbool⟩ := hoperand
  refine ⟨.comparison (.compare column op v), ?_, ?_⟩
  · simp [Column.order, hbool]
  · simp [hx]

theorem isNull_settled : AgreesSettled fold row (Column.is_ column) (.field column none) := by
  refine ⟨_, rfl, ?_⟩
  simp [hx]

theorem isNotNull_settled : AgreesSettled fold row (Column.isnot column)
      (.operators column [.compare .ne none]) := by
  refine ⟨_, rfl, ?_⟩
  simp [hx]

theorem in_agrees (operands : List (Option V)) :
    Agrees fold row (Column.in_ column operands) (.operators column [.in_ operands]) := by
  refine ⟨_, rfl, ?_⟩
  simp only [ColumnElement.truth_comparison, Comparison.truth_in_,
    MongoDocument.accepts_operators, MongoOperator.accepts_in_,
    all_cons, all_nil, Bool.and_true, hx]
  induction operands with
  | nil => rfl
  | cons operand operands ih =>
    rw [foldr_cons, Truth.holds_or, ih, any_cons, holds_compareNullable (by decide)]

theorem in_settled {operands : List (Option V)} (hoperands : none ∉ operands) :
    AgreesSettled fold row (Column.in_ column operands)
      (.operators column [.in_ operands]) := by
  refine ⟨_, rfl, ?_⟩
  simp only [ColumnElement.truth_comparison, Comparison.truth_in_,
    MongoDocument.accepts_operators, MongoOperator.accepts_in_,
    all_cons, all_nil, Bool.and_true, hx]
  induction operands with
  | nil => rfl
  | cons operand operands ih =>
    rw [mem_cons, not_or] at hoperands
    rw [foldr_cons, ih hoperands.2, any_cons]
    cases operand with
    | none => exact absurd rfl hoperands.1
    | some v => simp

theorem between_agrees (low high : Option V) : Agrees fold row (Column.between column low high)
      (.operators column [.compare .ge low, .compare .le high]) := by
  have hge : ComparisonOp.ge ≠ .ne := by decide
  have hle : ComparisonOp.le ≠ .ne := by decide
  refine ⟨_, rfl, ?_⟩
  simp [holds_compareNullable hge, holds_compareNullable hle, hx]

theorem between_settled {low high : Option V} (hlow : low ≠ none) (hhigh : high ≠ none) :
    AgreesSettled fold row (Column.between column low high)
      (.operators column [.compare .ge low, .compare .le high]) := by
  obtain ⟨lowValue, rfl⟩ := Option.ne_none_iff_exists'.mp hlow
  obtain ⟨highValue, rfl⟩ := Option.ne_none_iff_exists'.mp hhigh
  refine ⟨_, rfl, ?_⟩
  simp [hx]

end Operators

end PyFly.Data
