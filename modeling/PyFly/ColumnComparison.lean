import PyFly.Library.TextPatterns
import PyFly.SqlSpecification
import Mathlib.Data.String.Basic
import Mathlib.Data.Int.Order.Basic

/-!
# Column comparisons

The conditions which SQLAlchemy's column operators build, and what they mean
on a row.  `None` is a missing value: `==` and `!=` turn it into a null test,
and the order operators refuse it, as they refuse `True` and `False`.
-/

namespace PyFly.Data

open Library

/-- The values which columns and document fields hold. -/
class Scalar (V : Type) extends LinearOrder V where
  /-- Python's `str`. -/
  str : V → String
  /-- The text a value is, if it is one. -/
  text : V → Option String
  /-- `isinstance(value, bool)`. -/
  isBool : V → Bool

instance : Scalar Int where
  str := toString
  text _ := none
  isBool _ := false

instance : Scalar String where
  str := id
  text := some
  isBool _ := false

inductive ComparisonOp
  | eq
  | ne
  | gt
  | ge
  | lt
  | le
  deriving DecidableEq, Repr

variable {V : Type} [Scalar V]

def ComparisonOp.compare : ComparisonOp → V → V → Bool
  | eq, x, y => x = y
  | ne, x, y => x ≠ y
  | gt, x, y => y < x
  | ge, x, y => y ≤ x
  | lt, x, y => x < y
  | le, x, y => x ≤ y

/-- The stored values, by column or field; `none` is null. -/
abbrev Row (V : Type) := String → Option V

inductive Comparison (V : Type)
  | compare (column : String) (op : ComparisonOp) (operand : V)
  | isNull (column : String)
  | isNotNull (column : String)
  | in_ (column : String) (operands : List (Option V))
  | between (column : String) (low high : Option V)
  | like (column : String) (pattern : Option String)
  deriving DecidableEq, Repr

namespace Comparison

def compareNullable (op : ComparisonOp) : Option V → Option V → Truth
  | some x, some y => .ofBool (op.compare x y)
  | _, _ => .unknown

def truth (row : Row V) : Comparison V → Truth
  | compare column op operand => compareNullable op (row column) (some operand)
  | isNull column => .ofBool (row column).isNone
  | isNotNull column => .ofBool (row column).isSome
  | in_ column operands =>
    operands.foldr
      (fun operand rest => (compareNullable .eq (row column) operand).or rest)
      .no
  | between column low high =>
    (compareNullable .ge (row column) low).and (compareNullable .le (row column) high)
  | like column pattern =>
    match row column, pattern with
    | some x, some pattern =>
      match Scalar.text x with
      | some value => .ofBool (Library.like pattern.toList value.toList)
      | none => .no
    | _, _ => .unknown

@[simp] theorem compareNullable_some (op : ComparisonOp) (x y : V) :
    compareNullable op (some x) (some y) = .ofBool (op.compare x y) := rfl

@[simp] theorem compareNullable_none (op : ComparisonOp) (x : Option V) :
    compareNullable op x none = .unknown := by
  cases x <;> rfl

variable (row : Row V) (column : String)

@[simp] theorem truth_compare (op : ComparisonOp) (operand : V) :
    truth row (.compare column op operand) =
      compareNullable op (row column) (some operand) := rfl

@[simp] theorem truth_isNull :
    truth row (.isNull column) = .ofBool (row column).isNone := rfl

@[simp] theorem truth_isNotNull :
    truth row (.isNotNull column) = .ofBool (row column).isSome := rfl

@[simp] theorem truth_in_ (operands : List (Option V)) :
    truth row (.in_ column operands) = operands.foldr
        (fun operand rest => (compareNullable .eq (row column) operand).or rest)
        .no := rfl

@[simp] theorem truth_between (low high : Option V) :
    truth row (.between column low high) = (compareNullable .ge (row column) low).and
        (compareNullable .le (row column) high) := rfl

end Comparison

abbrev Clause (V : Type) := Except QueryError (ColumnElement (Comparison V))

namespace Column

def eq (column : String) (operand : Option V) : Clause V :=
  match operand with
  | none => .ok (.comparison (.isNull column))
  | some v => .ok (.comparison (.compare column .eq v))

def ne (column : String) (operand : Option V) : Clause V :=
  match operand with
  | none => .ok (.comparison (.isNotNull column))
  | some v => .ok (.comparison (.compare column .ne v))

/-- `column > operand` and the other order operators. -/
def order (op : ComparisonOp) (column : String) (operand : Option V) : Clause V :=
  match operand with
  | none => .error refused
  | some v =>
    if Scalar.isBool v then .error refused
    else .ok (.comparison (.compare column op v))
where
  refused : QueryError :=
    .argumentError "Only '=', '!=', 'is_()', 'is_not()', 'is_distinct_from()', 'is_not_distinct_from()' operators can be used with None/True/False"

def is_ (column : String) : Clause V :=
  .ok (.comparison (.isNull column))

def isnot (column : String) : Clause V :=
  .ok (.comparison (.isNotNull column))

def in_ (column : String) (operands : List (Option V)) : Clause V :=
  .ok (.comparison (.in_ column operands))

def between (column : String) (low high : Option V) : Clause V :=
  .ok (.comparison (.between column low high))

def like (column : String) (pattern : Option String) : Clause V :=
  .ok (.comparison (.like column pattern))

end Column

end PyFly.Data
