import PyFly.ColumnComparison

/-!
# MongoDB specifications

Filter documents, what they match, and the specifications which build them.
A comparison of values of different types does not match, and null is a type
of its own.
-/

namespace PyFly.Data

open Library

/-- A query operator of a field: `$ne`, `$gt`, `$gte`, `$lt` or `$lte` with
its operand, `$in`, or `$regex`, with `"$options": "i"` when it is
caseless. -/
inductive MongoOperator (V : Type)
  | compare (op : ComparisonOp) (operand : Option V)
  | in_ (operands : List (Option V))
  | regex (pattern : String) (caseless : Bool)
  deriving DecidableEq, Repr

inductive MongoDocument (V : Type)
  | empty
  | field (name : String) (value : Option V)
  | operators (name : String) (operators : List (MongoOperator V))
  | and_ (documents : List (MongoDocument V))
  | or_ (documents : List (MongoDocument V))
  | nor_ (documents : List (MongoDocument V))

variable {V : Type} [Scalar V]

def ComparisonOp.bracketed (op : ComparisonOp) : Option V → Option V → Bool
  | some x, some y => op.compare x y
  | none, none => op = .eq ∨ op = .ge ∨ op = .le
  | _, _ => op = .ne

@[simp] theorem ComparisonOp.bracketed_some (op : ComparisonOp) (x y : V) :
    op.bracketed (some x) (some y) = op.compare x y := rfl

@[simp] theorem ComparisonOp.bracketed_none (op : ComparisonOp) (x : V) :
    op.bracketed (some x) none = decide (op = .ne) := rfl

/-- `fold` maps the letters which are equal without regard to case to one of
them. -/
def MongoOperator.accepts (fold : Char → Char) (stored : Option V) : MongoOperator V → Bool
  | compare op operand => op.bracketed stored operand
  | in_ operands => operands.any (ComparisonOp.eq.bracketed stored ·)
  | regex pattern caseless =>
    match stored.bind Scalar.text with
    | some value =>
      let same c d := if caseless then fold c == fold d else c == d
      (regexSearch same pattern.toList value.toList).getD false
    | none => false

@[simp] theorem MongoOperator.accepts_compare (fold : Char → Char)
    (stored : Option V) (op : ComparisonOp) (operand : Option V) :
    (compare op operand).accepts fold stored = op.bracketed stored operand := rfl

@[simp] theorem MongoOperator.accepts_in_ (fold : Char → Char)
    (stored : Option V) (operands : List (Option V)) :
    (in_ operands).accepts fold stored =
      operands.any (ComparisonOp.eq.bracketed stored ·) := rfl

namespace MongoDocument

def nonempty : MongoDocument V → Bool
  | empty => false
  | _ => true

mutual

def accepts (fold : Char → Char) (row : Row V) : MongoDocument V → Bool
  | empty => true
  | field name value => ComparisonOp.eq.bracketed (row name) value
  | operators name ops => ops.all (·.accepts fold (row name))
  | and_ documents => allAccept fold row documents
  | or_ documents => anyAccepts fold row documents
  | nor_ documents => !anyAccepts fold row documents

def allAccept (fold : Char → Char) (row : Row V) : List (MongoDocument V) → Bool
  | [] => true
  | document :: documents =>
    document.accepts fold row && allAccept fold row documents

def anyAccepts (fold : Char → Char) (row : Row V) : List (MongoDocument V) → Bool
  | [] => false
  | document :: documents =>
    document.accepts fold row || anyAccepts fold row documents

end

@[simp] theorem accepts_empty (fold : Char → Char) (row : Row V) :
    empty.accepts fold row = true := rfl

@[simp] theorem accepts_field (fold : Char → Char) (row : Row V)
    (name : String) (value : Option V) :
    (field name value).accepts fold row = ComparisonOp.eq.bracketed (row name) value := rfl

@[simp] theorem accepts_operators (fold : Char → Char) (row : Row V)
    (name : String) (ops : List (MongoOperator V)) :
    (operators name ops).accepts fold row = ops.all (·.accepts fold (row name)) := rfl

theorem allAccept_eq (fold : Char → Char) (row : Row V) (documents : List (MongoDocument V)) :
    allAccept fold row documents = documents.all (·.accepts fold row) := by
  induction documents with
  | nil => rfl
  | cons document documents ih => rw [allAccept, List.all_cons, ih]

theorem anyAccepts_eq (fold : Char → Char) (row : Row V) (documents : List (MongoDocument V)) :
    anyAccepts fold row documents = documents.any (·.accepts fold row) := by
  induction documents with
  | nil => rfl
  | cons document documents ih => rw [anyAccepts, List.any_cons, ih]

@[simp] theorem accepts_and_ (fold : Char → Char) (row : Row V)
    (documents : List (MongoDocument V)) :
    (and_ documents).accepts fold row = documents.all (·.accepts fold row) := by
  rw [accepts, allAccept_eq]

@[simp] theorem accepts_or_ (fold : Char → Char) (row : Row V)
    (documents : List (MongoDocument V)) :
    (or_ documents).accepts fold row = documents.any (·.accepts fold row) := by
  rw [accepts, anyAccepts_eq]

@[simp] theorem accepts_nor_ (fold : Char → Char) (row : Row V)
    (documents : List (MongoDocument V)) :
    (nor_ documents).accepts fold row = !documents.any (·.accepts fold row) := by
  rw [accepts, anyAccepts_eq]

end MongoDocument

structure MongoSpecification (V : Type) where
  predicate : MongoDocument V → MongoDocument V

namespace MongoSpecification

def toPredicate (spec : MongoSpecification V) (query : MongoDocument V) : MongoDocument V :=
  spec.predicate query

def and (left right : MongoSpecification V) : MongoSpecification V where
  predicate query :=
    let leftDoc := left.predicate query
    let rightDoc := right.predicate query
    if leftDoc.nonempty = false then rightDoc
    else if rightDoc.nonempty = false then leftDoc
    else .and_ [leftDoc, rightDoc]

def or (left right : MongoSpecification V) : MongoSpecification V where
  predicate query :=
    let leftDoc := left.predicate query
    let rightDoc := right.predicate query
    if leftDoc.nonempty = false then rightDoc
    else if rightDoc.nonempty = false then leftDoc
    else .or_ [leftDoc, rightDoc]

def invert (spec : MongoSpecification V) : MongoSpecification V where
  predicate query :=
    let doc := spec.predicate query
    if doc.nonempty = false then .empty else .nor_ [doc]

variable {query : MongoDocument V}

omit [Scalar V] in
theorem and_predicate {left right : MongoSpecification V}
    (hleft : (left.predicate query).nonempty = true)
    (hright : (right.predicate query).nonempty = true) :
    (left.and right).predicate query = .and_ [left.predicate query, right.predicate query] := by
  simp [and, hleft, hright]

omit [Scalar V] in
theorem or_predicate {left right : MongoSpecification V}
    (hleft : (left.predicate query).nonempty = true)
    (hright : (right.predicate query).nonempty = true) :
    (left.or right).predicate query = .or_ [left.predicate query, right.predicate query] := by
  simp [or, hleft, hright]

omit [Scalar V] in
theorem invert_predicate {spec : MongoSpecification V}
    (hnonempty : (spec.predicate query).nonempty = true) :
    spec.invert.predicate query = .nor_ [spec.predicate query] := by
  simp [invert, hnonempty]

def document (doc : MongoDocument V) : MongoSpecification V where
  predicate _ := doc

/-- `MongoFilterUtils._create_noop`. -/
def noop : MongoSpecification V where
  predicate _ := .empty

end MongoSpecification

namespace SpecExpr

variable {α : Type}

def mongoSpecification (spec : α → MongoSpecification V) : SpecExpr α → MongoSpecification V
  | atom a => spec a
  | noop => MongoSpecification.noop
  | and left right =>
    (left.mongoSpecification spec).and (right.mongoSpecification spec)
  | or left right =>
    (left.mongoSpecification spec).or (right.mongoSpecification spec)
  | invert operand => (operand.mongoSpecification spec).invert

end SpecExpr

end PyFly.Data
