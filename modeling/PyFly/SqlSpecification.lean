import PyFly.Library.KleeneLogic

/-!
# SQLAlchemy specifications

A statement is known to its specifications by its WHERE clause alone.  The
clauses are trees over column comparisons; what a comparison means on a row
is a parameter here.  A specification may raise, as some comparisons do.
-/

namespace PyFly.Data

open Library

inductive QueryError
  | argumentError (message : String)
  | valueError (message : String)
  | indexError
  | typeError
  deriving DecidableEq, Repr

/-- A SQL condition over the comparisons `A`. -/
inductive ColumnElement (A : Type)
  | comparison (comparison : A)
  | and_ (left right : ColumnElement A)
  | or_ (left right : ColumnElement A)
  | not_ (clause : ColumnElement A)
  deriving DecidableEq, Repr

namespace ColumnElement

variable {A : Type}

def truth (row : A → Truth) : ColumnElement A → Truth
  | comparison a => row a
  | and_ left right => (left.truth row).and (right.truth row)
  | or_ left right => (left.truth row).or (right.truth row)
  | not_ clause => (clause.truth row).not

variable (row : A → Truth)

@[simp] theorem truth_comparison (a : A) :
    (comparison a).truth row = row a := rfl

@[simp] theorem truth_and_ (left right : ColumnElement A) :
    (left.and_ right).truth row = (left.truth row).and (right.truth row) := rfl

@[simp] theorem truth_or_ (left right : ColumnElement A) :
    (left.or_ right).truth row = (left.truth row).or (right.truth row) := rfl

@[simp] theorem truth_not_ (clause : ColumnElement A) :
    clause.not_.truth row = (clause.truth row).not := rfl

end ColumnElement

structure Select (A : Type) where
  whereclause : Option (ColumnElement A)
  deriving DecidableEq, Repr

namespace Select

variable {A : Type}

/-- `where`: successive clauses are joined by AND. -/
def where_ (clause : ColumnElement A) (query : Select A) : Select A :=
  match query.whereclause with
  | none => ⟨some clause⟩
  | some existing => ⟨some (.and_ existing clause)⟩

def selects (row : A → Truth) (query : Select A) : Bool :=
  match query.whereclause with
  | none => true
  | some clause => (clause.truth row).holds

end Select

structure Specification (A : Type) where
  predicate : Select A → Except QueryError (Select A)

namespace Specification

variable {A : Type}

def toPredicate (spec : Specification A) (query : Select A) : Except QueryError (Select A) :=
  spec.predicate query

/-- `__and__`: the right predicate is applied to the filtered statement. -/
def and (left right : Specification A) : Specification A where
  predicate query := do
    let filtered ← left.predicate query
    right.predicate filtered

def or (left right : Specification A) : Specification A where
  predicate query := do
    let leftQuery ← left.predicate query
    let rightQuery ← right.predicate query
    match leftQuery.whereclause, rightQuery.whereclause with
    | some leftClause, some rightClause =>
      return query.where_ (.or_ leftClause rightClause)
    | some _, none => return leftQuery
    | none, some _ => return rightQuery
    | none, none => return query

def invert (spec : Specification A) : Specification A where
  predicate query := do
    let modified ← spec.predicate query
    match modified.whereclause with
    | some clause => return query.where_ (.not_ clause)
    | none => return query

def column (clause : Except QueryError (ColumnElement A)) : Specification A where
  predicate query := do
    let built ← clause
    return query.where_ built

/-- `FilterUtils._create_noop`. -/
def noop : Specification A where
  predicate query := return query

end Specification

/-- Python expressions over specifications with `&`, `|` and `~`. -/
inductive SpecExpr (α : Type)
  | atom (atom : α)
  | noop
  | and (left right : SpecExpr α)
  | or (left right : SpecExpr α)
  | invert (operand : SpecExpr α)
  deriving DecidableEq, Repr

namespace SpecExpr

variable {α A : Type}

def specification (spec : α → Specification A) : SpecExpr α → Specification A
  | atom a => spec a
  | noop => Specification.noop
  | and left right =>
    (left.specification spec).and (right.specification spec)
  | or left right =>
    (left.specification spec).or (right.specification spec)
  | invert operand => (operand.specification spec).invert

def meaning (value : α → Bool) : SpecExpr α → Bool
  | atom a => value a
  | noop => true
  | and left right => left.meaning value && right.meaning value
  | or left right => left.meaning value || right.meaning value
  | invert operand => !operand.meaning value

def contributes : SpecExpr α → Bool
  | atom _ => true
  | noop => false
  | and left right => left.contributes || right.contributes
  | or left right => left.contributes || right.contributes
  | invert operand => operand.contributes

/-- The meaning on a statement without a clause: there an operand which has
no atom is left out of `|`, and `~` of such an operand is again a no-op. -/
def cleanMeaning (value : α → Bool) : SpecExpr α → Bool
  | atom a => value a
  | noop => true
  | and left right =>
    if left.contributes then left.cleanMeaning value && right.meaning value
    else right.cleanMeaning value
  | or left right =>
    match left.contributes, right.contributes with
    | true, true => left.cleanMeaning value || right.cleanMeaning value
    | true, false => left.cleanMeaning value
    | false, true => right.cleanMeaning value
    | false, false => true
  | invert operand =>
    if operand.contributes then !operand.cleanMeaning value else true

def atoms : SpecExpr α → List α
  | atom a => [a]
  | noop => []
  | and left right => left.atoms ++ right.atoms
  | or left right => left.atoms ++ right.atoms
  | invert operand => operand.atoms

end SpecExpr

end PyFly.Data
