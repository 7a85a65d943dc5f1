import PyFly.ColumnComparison

/-!
# Derived queries and their SQLAlchemy compiler

A method name is parsed into predicates, the connectors between them and
order clauses.  The compiler threads an argument index through the
predicates: `between` takes two arguments, the null tests take none.
-/

namespace PyFly.Data

open Library

inductive QueryOperator
  | eq
  | not
  | gt
  | gte
  | lt
  | lte
  | like
  | containing
  | in_
  | between
  | isNull
  | isNotNull
  | unknown (name : String)
  deriving DecidableEq, Repr

structure FieldPredicate where
  fieldName : String
  operator : QueryOperator := .eq
  deriving DecidableEq, Repr

inductive OrderDirection
  | asc
  | desc
  | other (text : String)
  deriving DecidableEq, Repr

structure OrderClause where
  fieldName : String
  direction : OrderDirection := .asc
  deriving DecidableEq, Repr

inductive Connector
  | and
  | or
  | other (text : String)
  deriving DecidableEq, Repr

inductive QueryPrefix
  | findBy
  | countBy
  | existsBy
  | deleteBy
  | unknown (name : String)
  deriving DecidableEq, Repr

structure ParsedQuery where
  queryPrefix : QueryPrefix
  predicates : List FieldPredicate := []
  connectors : List Connector := []
  orderClauses : List OrderClause := []
  deriving DecidableEq, Repr

inductive Argument (V : Type)
  | value (value : Option V)
  | list (values : List (Option V))
  deriving DecidableEq, Repr

variable {V C : Type}

/-- `args[arg_idx]`, where a value is expected. -/
def argument (args : List (Argument V)) (argIdx : ℕ) : Except QueryError (Option V) :=
  match args[argIdx]? with
  | some (.value v) => .ok v
  | some (.list _) => .error .typeError
  | none => .error .indexError

/-- `args[arg_idx]`, where a list is expected. -/
def listArgument (args : List (Argument V)) (argIdx : ℕ) :
    Except QueryError (List (Option V)) :=
  match args[argIdx]? with
  | some (.list vs) => .ok vs
  | some (.value _) => .error .typeError
  | none => .error .indexError

/-- Python's `str` of an argument. -/
def pyStr [Scalar V] : Option V → String
  | none => "None"
  | some v => Scalar.str v

def collectFrom (build : FieldPredicate → ℕ → Except QueryError (C × ℕ)) :
    List FieldPredicate → ℕ → Except QueryError (List C × ℕ)
  | [], argIdx => .ok ([], argIdx)
  | predicate :: predicates, argIdx => do
      let (clause, next) ← build predicate argIdx
      let (clauses, last) ← collectFrom build predicates next
      return (clause :: clauses, last)

def startsFrom (build : FieldPredicate → ℕ → Except QueryError (C × ℕ)) :
    List FieldPredicate → ℕ → Except QueryError (List ℕ)
  | [], _ => .ok []
  | predicate :: predicates, argIdx => do
      let (_, next) ← build predicate argIdx
      let starts ← startsFrom build predicates next
      return argIdx :: starts

def joinFrom (join : Connector → C → C → C) (clauses : List C) :
    C → ℕ → List Connector → Except QueryError C
  | combined, _, [] => .ok combined
  | combined, i, connector :: connectors =>
    match clauses[i + 1]? with
    | some clause =>
      joinFrom join clauses (join connector combined clause) (i + 1) connectors
    | none => .error .indexError

inductive SortOrder
  | ascending
  | descending
  deriving DecidableEq, Repr

namespace QueryMethodCompiler

variable [Scalar V]

def buildClause (predicate : FieldPredicate) (args : List (Argument V)) (argIdx : ℕ) :
    Except QueryError (ColumnElement (Comparison V) × ℕ) := do
  let col := predicate.fieldName
  match predicate.operator with
  | .eq => return (← Column.eq col (← argument args argIdx), argIdx + 1)
  | .not => return (← Column.ne col (← argument args argIdx), argIdx + 1)
  | .gt =>
    return (← Column.order .gt col (← argument args argIdx), argIdx + 1)
  | .gte =>
    return (← Column.order .ge col (← argument args argIdx), argIdx + 1)
  | .lt =>
    return (← Column.order .lt col (← argument args argIdx), argIdx + 1)
  | .lte =>
    return (← Column.order .le col (← argument args argIdx), argIdx + 1)
  | .like =>
    let arg ← argument args argIdx
    return (← Column.like col (arg.map Scalar.str), argIdx + 1)
  | .containing =>
    let arg ← argument args argIdx
    return (← Column.like col (some ("%" ++ pyStr arg ++ "%")), argIdx + 1)
  | .in_ => return (← Column.in_ col (← listArgument args argIdx), argIdx + 1)
  | .between =>
    let low ← argument args argIdx
    let high ← argument args (argIdx + 1)
    return (← Column.between col low high, argIdx + 2)
  | .isNull => return (← Column.is_ col, argIdx)
  | .isNotNull => return (← Column.isnot col, argIdx)
  | .unknown name => throw (.valueError ("Unknown operator: " ++ name))

def collectClauses (parsed : ParsedQuery) (args : List (Argument V)) :
    Except QueryError (List (ColumnElement (Comparison V)) × ℕ) :=
  collectFrom (buildClause · args ·) parsed.predicates 0

def joinClauses (connector : Connector) (combined clause : ColumnElement (Comparison V)) :
    ColumnElement (Comparison V) :=
  if connector = .and then .and_ combined clause else .or_ combined clause

/-- How `_apply_where` combines the clauses. -/
def combineClauses (connectors : List Connector) :
    List (ColumnElement (Comparison V)) → Except QueryError (ColumnElement (Comparison V))
  | [] => throw .indexError
  | first :: rest => joinFrom joinClauses (first :: rest) first 0 connectors

def applyWhere (stmt : Select (Comparison V)) (parsed : ParsedQuery)
    (args : List (Argument V)) :
    Except QueryError (Select (Comparison V)) := do
  if parsed.predicates = [] then return stmt
  let (clauses, _) ← collectClauses parsed args
  let combined ← combineClauses parsed.connectors clauses
  return stmt.where_ combined

def applyOrder (parsed : ParsedQuery) : List (String × SortOrder) :=
  parsed.orderClauses.map fun order =>
    (order.fieldName, if order.direction = .desc then .descending else .ascending)

end QueryMethodCompiler

end PyFly.Data
