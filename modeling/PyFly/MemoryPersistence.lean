import PyFly.Library.InsertionDict
import PyFly.TransactionalPorts
import Mathlib.Algebra.Order.Ring.Rat

/-!
# The in-memory persistence adapter

`InMemoryPersistenceAdapter` keeps one state dictionary for each correlation
id.  None of its methods suspends while it holds the lock, so a method is one
step on the store.  Instants are rational numbers; a comparison of a text
with an instant raises `TypeError`, as it does in Python.
-/

namespace PyFly.Transactional

open Library

inductive FieldValue
  | none
  | text (text : String)
  | flag (flag : Bool)
  | datetime (instant : ℚ)
  | mapping (entries : Dict String String)

abbrev TransactionState := Dict String FieldValue

abbrev Store := Dict String TransactionState

inductive PersistenceError (E : Type)
  | keyError (key : String)
  | typeError
  | raised (error : E)

variable {E : Type}

namespace Store

/-- `persist_state`, at a given time. -/
def persistState (now : ℚ) (state : TransactionState) (store : Store) :
    Except (PersistenceError E) Store :=
  match state.get? "correlation_id" with
  | some (.text correlationId) =>
    .ok (store.set correlationId ((state.setDefault "status" (.text "IN_FLIGHT")).setDefault
        "started_at" (.datetime now)))
  | _ => .error (.keyError "correlation_id")

/-- What `mark_completed` writes into a state. -/
def completeState (now : ℚ) (successful : Bool) (state : TransactionState) :
    TransactionState :=
  ((state.set "status" (.text (if successful then "COMPLETED" else
    "FAILED"))).set "successful" (.flag successful)).set "completed_at" (.datetime now)

def markCompleted (now : ℚ) (correlationId : String) (successful : Bool)
    (store : Store) : Except (PersistenceError E) Store :=
  match store.get? correlationId with
  | none => .error (.keyError correlationId)
  | some state =>
    .ok (store.set correlationId (completeState now successful state))

def isBefore (before : ℚ) : FieldValue → Except (PersistenceError E) Bool
  | .datetime instant => .ok (instant < before)
  | _ => .error .typeError

/-- The comprehension of `get_stale` over the states still to come. -/
def staleStates (before : ℚ) : List (String × TransactionState) →
      Except (PersistenceError E) (List (String × TransactionState))
  | [] => .ok []
  | item :: rest =>
    match item.2.get? "started_at" with
    | none | some .none => staleStates before rest
    | some value =>
      match isBefore before value with
      | .error error => .error error
      | .ok false => staleStates before rest
      | .ok true => (staleStates before rest).map (item :: ·)

def getStale (before : ℚ) (store : Store) :
    Except (PersistenceError E) (List (String × TransactionState)) :=
  staleStates before store.items

def isRemovable (cutoff : ℚ) (state : TransactionState) : Bool :=
  match state.get? "status", state.get? "completed_at" with
  | some (.text status), some (.datetime completedAt) =>
    (status == "COMPLETED" || status == "FAILED") && decide (completedAt < cutoff)
  | _, _ => false

/-- `cleanup`: the store afterwards and the number of states removed. -/
def cleanup (now olderThan : ℚ) (store : Store) : Store × ℕ :=
  let toRemove := (store.items.filter fun item =>
    isRemovable (now - olderThan) item.2).map Prod.fst
  (toRemove.foldl Dict.erase store, toRemove.length)

end Store

end PyFly.Transactional
