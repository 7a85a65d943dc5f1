import PyFly.MongoSpecification
import PyFly.QueryMethodCompiler

/-!
# The MongoDB compiler of derived queries
-/

namespace PyFly.Data

open Library

variable {V : Type} [Scalar V]

/-- `re.escape(str(arg)).replace(r"\%", ".*").replace(r"\_", ".")`. -/
def likeRegex (arg : List Char) : List Char :=
  replacePair '\\' '_' ['.'] (replacePair '\\' '%' ['.', '*'] (reEscape arg))

def containingRegex (arg : List Char) : List Char :=
  ['.', '*'] ++ reEscape arg ++ ['.', '*']

namespace MongoQueryMethodCompiler

def buildClause (predicate : FieldPredicate) (args : List (Argument V))
    (argIdx : ℕ) : Except QueryError (MongoDocument V × ℕ) := do
  let fieldName := predicate.fieldName
  match predicate.operator with
  | .eq => return (.field fieldName (← argument args argIdx), argIdx + 1)
  | .not =>
    return (.operators fieldName [.compare .ne (← argument args argIdx)], argIdx + 1)
  | .gt =>
    return (.operators fieldName [.compare .gt (← argument args argIdx)], argIdx + 1)
  | .gte =>
    return (.operators fieldName [.compare .ge (← argument args argIdx)], argIdx + 1)
  | .lt =>
    return (.operators fieldName [.compare .lt (← argument args argIdx)], argIdx + 1)
  | .lte =>
    return (.operators fieldName [.compare .le (← argument args argIdx)], argIdx + 1)
  | .like =>
    let pattern := likeRegex (pyStr (← argument args argIdx)).toList
    return (.operators fieldName [.regex (String.ofList pattern) false], argIdx + 1)
  | .containing =>
    let pattern := containingRegex (pyStr (← argument args argIdx)).toList
    return (.operators fieldName [.regex (String.ofList pattern) true], argIdx + 1)
  | .in_ =>
    return (.operators fieldName [.in_ (← listArgument args argIdx)], argIdx + 1)
  | .between =>
    let low ← argument args argIdx
    let high ← argument args (argIdx + 1)
    return (.operators fieldName [.compare .ge low, .compare .le high], argIdx + 2)
  | .isNull => return (.field fieldName none, argIdx)
  | .isNotNull => return (.operators fieldName [.compare .ne none], argIdx)
  | .unknown name => throw (.valueError ("Unknown operator: " ++ name))

/-- The loop of `_build_filter` over the predicates. -/
def collectClauses (parsed : ParsedQuery) (args : List (Argument V)) :
    Except QueryError (List (MongoDocument V) × ℕ) :=
  collectFrom (buildClause · args ·) parsed.predicates 0

def joinClauses (connector : Connector) (result clause : MongoDocument V) : MongoDocument V :=
  if connector = .and then .and_ [result, clause] else .or_ [result, clause]

/-- How `_build_filter` combines the clauses. -/
def combineClauses (connectors : List Connector) :
    List (MongoDocument V) → Except QueryError (MongoDocument V)
  | [] => throw .indexError
  | [clause] => return clause
  | first :: rest =>
    let clauses := first :: rest
    if connectors = [] then return .and_ clauses
    else if connectors.all (· = .and) then return .and_ clauses
    else if connectors.all (· = .or) then return .or_ clauses
    else joinFrom joinClauses clauses first 0 connectors

def buildFilter (parsed : ParsedQuery) (args : List (Argument V)) :
    Except QueryError (MongoDocument V) := do
  if parsed.predicates = [] then return .empty
  let (clauses, _) ← collectClauses parsed args
  combineClauses parsed.connectors clauses

def buildSort (parsed : ParsedQuery) : List (String × SortOrder) :=
  parsed.orderClauses.map fun order =>
    (order.fieldName, if order.direction = .asc then .ascending else .descending)

end MongoQueryMethodCompiler

end PyFly.Data
