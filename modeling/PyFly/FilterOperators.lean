import PyFly.SpecificationMeaning
import PyFly.MongoSpecification

/-!
# Filter operators

The atomic specifications of both adapters, under the same names.
-/

namespace PyFly.Data

open Library

variable {V : Type} [Scalar V]

namespace FilterOperator

open Specification

def eq (field : String) (value : Option V) : Specification (Comparison V) :=
  column (Column.eq field value)

def neq (field : String) (value : Option V) : Specification (Comparison V) :=
  column (Column.ne field value)

def gt (field : String) (value : Option V) : Specification (Comparison V) :=
  column (Column.order .gt field value)

def gte (field : String) (value : Option V) : Specification (Comparison V) :=
  column (Column.order .ge field value)

def lt (field : String) (value : Option V) : Specification (Comparison V) :=
  column (Column.order .lt field value)

def lte (field : String) (value : Option V) : Specification (Comparison V) :=
  column (Column.order .le field value)

def inList (field : String) (values : List (Option V)) : Specification (Comparison V) :=
  column (Column.in_ field values)

def isNull (field : String) : Specification (Comparison V) :=
  column (Column.is_ field)

def isNotNull (field : String) : Specification (Comparison V) :=
  column (Column.isnot field)

def between (field : String) (low high : Option V) : Specification (Comparison V) :=
  column (Column.between field low high)

end FilterOperator

namespace MongoFilterOperator

open MongoSpecification

def eq (field : String) (value : Option V) : MongoSpecification V :=
  document (.field field value)

def neq (field : String) (value : Option V) : MongoSpecification V :=
  document (.operators field [.compare .ne value])

def gt (field : String) (value : Option V) : MongoSpecification V :=
  document (.operators field [.compare .gt value])

def gte (field : String) (value : Option V) : MongoSpecification V :=
  document (.operators field [.compare .ge value])

def lt (field : String) (value : Option V) : MongoSpecification V :=
  document (.operators field [.compare .lt value])

def lte (field : String) (value : Option V) : MongoSpecification V :=
  document (.operators field [.compare .le value])

def inList (field : String) (values : List (Option V)) : MongoSpecification V :=
  document (.operators field [.in_ values])

def isNull (field : String) : MongoSpecification V :=
  document (.field field none)

def isNotNull (field : String) : MongoSpecification V :=
  document (.operators field [.compare .ne none])

def between (field : String) (low high : Option V) : MongoSpecification V :=
  document (.operators field [.compare .ge low, .compare .le high])

end MongoFilterOperator

/-- The atomic predicates which both adapters offer and which do not look
into texts. -/
inductive Criterion (V : Type)
  | eq (field : String) (value : Option V)
  | neq (field : String) (value : Option V)
  | gt (field : String) (value : Option V)
  | gte (field : String) (value : Option V)
  | lt (field : String) (value : Option V)
  | lte (field : String) (value : Option V)
  | inList (field : String) (values : List (Option V))
  | between (field : String) (low high : Option V)
  | isNull (field : String)
  deriving DecidableEq, Repr

namespace Criterion

def field : Criterion V → String
  | eq field _ | neq field _ | gt field _ | gte field _ | lt field _
  | lte field _ | inList field _ | between field _ _ | isNull field => field

def specification : Criterion V → Specification (Comparison V)
  | eq field value => FilterOperator.eq field value
  | neq field value => FilterOperator.neq field value
  | gt field value => FilterOperator.gt field value
  | gte field value => FilterOperator.gte field value
  | lt field value => FilterOperator.lt field value
  | lte field value => FilterOperator.lte field value
  | inList field values => FilterOperator.inList field values
  | between field low high => FilterOperator.between field low high
  | isNull field => FilterOperator.isNull field

def mongoSpecification : Criterion V → MongoSpecification V
  | eq field value => MongoFilterOperator.eq field value
  | neq field value => MongoFilterOperator.neq field value
  | gt field value => MongoFilterOperator.gt field value
  | gte field value => MongoFilterOperator.gte field value
  | lt field value => MongoFilterOperator.lt field value
  | lte field value => MongoFilterOperator.lte field value
  | inList field values => MongoFilterOperator.inList field values
  | between field low high => MongoFilterOperator.between field low high
  | isNull field => MongoFilterOperator.isNull field

/-- The operand of an order comparison is a value other than `True` and
`False`. -/
def Comparable : Criterion V → Prop
  | gt _ value | gte _ value | lt _ value | lte _ value =>
    ∃ v, value = some v ∧ Scalar.isBool v = false
  | _ => True

def Settled : Criterion V → Prop
  | inList _ values => none ∉ values
  | between _ low high => low ≠ none ∧ high ≠ none
  | _ => True

end Criterion

end PyFly.Data
