import Mathlib.Algebra.Ring.Nat
import Mathlib.Data.Char
import Mathlib.Data.List.Lex
import Mathlib.Data.List.Sort
import PyFly.CacheManager

/-!
# The query bus

A query passes validation and authorization, then the cache is asked, and the
handler runs if the cache has nothing.  The cache key is made of the class
name of the query and a hash of its fields.
-/

namespace PyFly.Cqrs

open Library Cache

/-! ## Queries and their keys -/

/-- The values of query fields; `object` stands for all other objects. -/
inductive Value (ι : Type)
  | int (n : ℤ)
  | str (text : List Char)
  | tuple (items : List (Value ι))
  | object (id : ι)

structure Python (κ ι : Type) where
  className : κ → List Char
  strHash : List Char → ℤ
  objectHash : ι → Option ℤ
  repr : Value ι → List Char

variable {κ ι : Type} (python : Python κ ι)

/-- `hash` of an `int`: its residue modulo a Mersenne prime, and never `-1`. -/
def hashInt (n : ℤ) : ℤ :=
  let residue := n.sign * (n.natAbs % (2 ^ 61 - 1) : ℕ)
  if residue = -1 then -2 else residue

def hashLane (acc : BitVec 64) (lane : ℤ) : BitVec 64 :=
  (acc + BitVec.ofInt 64 lane * 14029467366897019727#64).rotateLeft 31 * 11400714785074694791#64

/-- `hash` of a `tuple` whose items have the given hashes. -/
def hashTuple (lanes : List ℤ) : ℤ :=
  let acc := lanes.foldl hashLane 2870177450012600261#64 +
    (BitVec.ofNat 64 lanes.length ^^^ (2870177450012600261#64 ^^^ 3527539#64))
  if acc = BitVec.allOnes 64 then 1546275796 else acc.toInt

mutual

/-- `hash`; unhashable values have none. -/
def Value.hash? : Value ι → Option ℤ
  | .int n => some (hashInt n)
  | .str text => some (python.strHash text)
  | .tuple items => (Value.hashes items).map hashTuple
  | .object id => python.objectHash id

def Value.hashes : List (Value ι) → Option (List ℤ)
  | [] => some []
  | item :: items => do
      let first ← item.hash?
      let rest ← Value.hashes items
      return first :: rest

end

/-- `str` of an `int`. -/
def decimal (n : ℤ) : List Char :=
  if n < 0 then '-' :: Nat.toDigits 10 n.natAbs else Nat.toDigits 10 n.natAbs

/-- A query object; `customKey` is what an override of `get_cache_key`
returns. -/
structure Query (κ ι : Type) where
  cls : κ
  isDataclass : Bool := true
  fields : List (List Char × Value ι)
  cacheable : Bool := true
  customKey : Option (Option (List Char)) := none

namespace Query

/-- The hash of the item of a field; an unhashable value counts by its
`repr`. -/
def fieldHash (field : List Char × Value ι) : ℤ :=
  hashTuple [python.strHash field.1,
    (field.2.hash? python).getD (python.strHash (python.repr field.2))]

def sortedFields (query : Query κ ι) : List (List Char × Value ι) :=
  query.fields.insertionSort fun first second => first.1 ≤ second.1

def getCacheKey (query : Query κ ι) : Option (List Char) :=
  match query.customKey with
  | some key => key
  | none =>
    some (if query.isDataclass then
      python.className query.cls ++ ':' ::
        decimal (hashTuple (query.sortedFields.map (fieldHash python)))
    else python.className query.cls)

end Query

/-! ## Adapters -/

def cqrsCachePrefix : List Char := [':', 'c', 'q', 'r', 's', ':']

inductive CacheAdapter
  | plain
  | query (available : Bool)
  deriving DecidableEq

namespace CacheAdapter

def place : CacheAdapter → List Char → Option (List Char)
  | .plain, key => some key
  | .query true, key => some (cqrsCachePrefix ++ key)
  | .query false, _ => none

variable {V : Type}

def get (adapter : CacheAdapter) (store : Store (List Char) V) (key : List Char) : Option V :=
  (adapter.place key).bind store.get

def put (adapter : CacheAdapter) (store : Store (List Char) V)
    (key : List Char) (value : Option V) : Store (List Char) V :=
  match adapter.place key with
  | some place => store.put place value
  | none => store

def evict (adapter : CacheAdapter) (store : Store (List Char) V)
    (key : List Char) : Bool × Store (List Char) V :=
  match adapter.place key with
  | some place => store.evict place
  | none => (false, store)

end CacheAdapter

/-! ## The bus -/

/-- The exceptions of the pipeline, `ε` those of validation, authorization and
handlers. -/
inductive QueryError (κ ε : Type)
  | raised (error : ε)
  | handlerNotFound (queryType : κ)
  | processing (message : List Char) (queryType : κ) (cause : QueryError κ ε)
  deriving DecidableEq

/-- A handler with its two entry points; `none` is Python's `None`. -/
structure QueryHandler (κ ι γ ε V : Type) where
  supportsCaching : Bool
  handle : Query κ ι → Except (QueryError κ ε) (Option V)
  handleWithContext : Query κ ι → γ → Except (QueryError κ ε) (Option V)

structure QueryBus (κ ι γ ε V : Type) where
  findHandler : κ → Option (QueryHandler κ ι γ ε V)
  cache : Option CacheAdapter
  errorText : ε → List Char

structure QueryCall (κ ι γ ε : Type) where
  query : Query κ ι
  context : Option γ := none
  validated : Except (QueryError κ ε) Unit := .ok ()
  authorized : Except (QueryError κ ε) Unit := .ok ()

/-- The result of a call, and whether the handler ran for it. -/
structure Answer (κ ε V : Type) where
  result : Except (QueryError κ ε) (Option V)
  handled : Bool

variable {γ ε V : Type}

def QueryHandler.answer (handler : QueryHandler κ ι γ ε V)
    (call : QueryCall κ ι γ ε) : Except (QueryError κ ε) (Option V) :=
  match call.context with
  | some context => handler.handleWithContext call.query context
  | none => handler.handle call.query

/-- `str` of an exception. -/
def QueryError.text (errorText : ε → List Char) : QueryError κ ε → List Char
  | .raised error => errorText error
  | .handlerNotFound queryType =>
    "No handler registered for query: ".toList ++ python.className queryType
  | .processing message _ _ => message

def QueryError.wrapped (errorText : ε → List Char) (cls : κ) : QueryError κ ε → QueryError κ ε
  | .processing message queryType cause => .processing message queryType cause
  | error =>
    .processing ("Failed to process query ".toList ++ python.className cls ++
      [':', ' '] ++ error.text python errorText) cls error

namespace QueryBus

variable (bus : QueryBus κ ι γ ε V)

def buildCacheKey (query : Query κ ι) : Option (List Char) :=
  match query.getCacheKey python with
  | some (c :: key) => some (cqrsCachePrefix ++ c :: key)
  | _ => none

def cacheSlot (handler : QueryHandler κ ι γ ε V) (query : Query κ ι) :
    Option (CacheAdapter × List Char) :=
  match bus.cache with
  | none => none
  | some adapter =>
    if query.cacheable && handler.supportsCaching then
      (buildCacheKey python query).map fun key => (adapter, key)
    else none

def tryCacheGet (store : Store (List Char) V)
    (handler : QueryHandler κ ι γ ε V) (query : Query κ ι) : Option V :=
  match bus.cacheSlot python handler query with
  | some (adapter, key) => adapter.get store key
  | none => none

def tryCachePut (store : Store (List Char) V)
    (handler : QueryHandler κ ι γ ε V) (query : Query κ ι)
    (result : Option V) : Store (List Char) V :=
  match bus.cacheSlot python handler query with
  | some (adapter, key) => adapter.put store key result
  | none => store

def accept (call : QueryCall κ ι γ ε) : Except (QueryError κ ε) (QueryHandler κ ι γ ε V) := do
  call.validated
  call.authorized
  match bus.findHandler call.query.cls with
  | some handler => .ok handler
  | none => .error (.handlerNotFound call.query.cls)

def execute (store : Store (List Char) V) (call : QueryCall κ ι γ ε) :
    Answer κ ε V × Store (List Char) V :=
  let failed := fun error : QueryError κ ε =>
    Except.error (error.wrapped python bus.errorText call.query.cls)
  match bus.accept call with
  | .error error => (⟨failed error, false⟩, store)
  | .ok handler =>
    match bus.tryCacheGet python store handler call.query with
    | some cached => (⟨.ok (some cached), false⟩, store)
    | none =>
      match handler.answer call with
      | .error error => (⟨failed error, true⟩, store)
      | .ok result =>
        (⟨.ok result, true⟩, bus.tryCachePut python store handler call.query result)

def after (calls : List (QueryCall κ ι γ ε)) : Store (List Char) V :=
  calls.foldl (fun store call => (bus.execute python store call).2) Dict.empty

def clearCache (store : Store (List Char) V) (key : List Char) : Store (List Char) V :=
  match bus.cache with
  | some adapter => (adapter.evict store key).2
  | none => store

variable {bus}

theorem findHandler_of_accept {call : QueryCall κ ι γ ε}
    {handler : QueryHandler κ ι γ ε V} (h : bus.accept call = .ok handler) :
    bus.findHandler call.query.cls = some handler := by
  unfold accept at h
  cases hvalidated : call.validated with
  | error error => simp [hvalidated, bind, Except.bind] at h
  | ok _ =>
    cases hauthorized : call.authorized with
    | error error => simp [hvalidated, hauthorized, bind, Except.bind] at h
    | ok _ =>
      cases hfind : bus.findHandler call.query.cls with
      | none =>
        simp [hvalidated, hauthorized, hfind, bind, Except.bind] at h
      | some found =>
        simpa [hvalidated, hauthorized, hfind, bind, Except.bind] using h

end QueryBus

end PyFly.Cqrs
