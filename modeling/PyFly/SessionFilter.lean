import Mathlib.Algebra.Order.Field.Rat
import PyFly.Library.InsertionDict
import PyFly.Library.ScheduledMachine

/-!
# HTTP sessions

A request loads its session before the handler and writes it back after it.
The in-memory store hands out the dictionary which it holds; the Redis store
hands out a copy and writes whole sessions back.  Requests interleave at each
store operation and inside their handlers.
-/

namespace PyFly.Session

open Library

variable {V ι : Type}

/-! ## Sessions -/

/-- What `json.loads` gives back for what `json.dumps` writes of a value, and
nothing for a value which cannot be written. -/
structure Json (V : Type) where
  reload : V → Option V
  time : ℚ → V
  reload_time : ∀ now, reload (time now) = some (time now)
  reload_reload : ∀ value kept, reload value = some kept → reload kept = some kept

/-- `json.dumps` of a session writes all its values or raises a `TypeError`. -/
def Json.reloadData (json : Json V) (data : Dict String V) : Option (Dict String V) :=
  if data.values.all fun value => (json.reload value).isSome then
    some (data.filterMapValues fun _ => json.reload)
  else none

/-- The dictionaries of the process, by reference. -/
structure Heap (V : Type) where
  dicts : ℕ → Dict String V
  next : ℕ

namespace Heap

def alloc (data : Dict String V) (heap : Heap V) : ℕ × Heap V :=
  (heap.next, ⟨Function.update heap.dicts heap.next data, heap.next + 1⟩)

def modify (ref : ℕ) (change : Dict String V → Dict String V) (heap : Heap V) : Heap V :=
  { heap with
    dicts := Function.update heap.dicts ref (change (heap.dicts ref)) }

end Heap

structure HttpSession where
  id : String
  data : ℕ
  isNew : Bool
  invalidated : Bool := false
  modified : Bool
  deriving DecidableEq, Repr

def createdAt : String := "_created_at"

def lastAccessed : String := "_last_accessed"

/-- What `__init__` writes into the dictionary. -/
def stamp (json : Json V) (now : ℚ) (data : Dict String V) : Dict String V :=
  (data.setDefault createdAt (json.time now)).set lastAccessed (json.time now)

def HttpSession.init (json : Json V) (now : ℚ) (id : String) (data : ℕ)
    (isNew : Bool) (heap : Heap V) : HttpSession × Heap V :=
  (⟨id, data, isNew, false, isNew⟩, heap.modify data (stamp json now))

namespace HttpSession

def getAttribute (name : String) (session : HttpSession) (heap : Heap V) : Option V :=
  (heap.dicts session.data).get? name

def setAttribute (name : String) (value : V) (session : HttpSession)
    (heap : Heap V) : HttpSession × Heap V :=
  ({ session with modified := true },
    heap.modify session.data fun data => data.set name value)

def removeAttribute (name : String) (session : HttpSession) (heap : Heap V) :
    HttpSession × Heap V :=
  if name ∈ (heap.dicts session.data).keys then
    ({ session with modified := true },
      heap.modify session.data fun data => data.erase name)
  else (session, heap)

def invalidate (session : HttpSession) : HttpSession :=
  { session with invalidated := true, modified := true }

variable (name : String) (session : HttpSession) (heap : Heap V)

theorem get?_setAttribute (value : V) (data : ℕ) (other : String) :
    ((session.setAttribute name value heap).2.dicts data).get? other =
      if data = session.data ∧ other = name then some value
      else (heap.dicts data).get? other := by
  by_cases hdata : data = session.data
  · by_cases hname : other = name
    · simp [setAttribute, Heap.modify, hdata, hname]
    · simp [setAttribute, Heap.modify, hdata, hname, Dict.get?_set_of_ne hname]
  · simp [setAttribute, Heap.modify, hdata]

theorem get?_removeAttribute (data : ℕ) (other : String) :
    ((session.removeAttribute name heap).2.dicts data).get? other =
      if data = session.data ∧ other = name then none
      else (heap.dicts data).get? other := by
  unfold removeAttribute
  split
  · by_cases hdata : data = session.data
    · simp [Heap.modify, hdata, Dict.get?_erase]
    · simp [Heap.modify, hdata]
  · next habsent =>
    split
    · next hsame =>
      rw [hsame.1, hsame.2]
      exact Dict.get?_eq_none_iff.mpr habsent
    · rfl

@[simp] theorem data_setAttribute (value : V) :
    (session.setAttribute name value heap).1.data = session.data := rfl

theorem removeAttribute_eq : ∃ modified, (session.removeAttribute name heap).1 =
        { session with modified := modified } ∧
      (session.removeAttribute name heap).2.next = heap.next := by
  unfold removeAttribute
  split
  · exact ⟨true, rfl, rfl⟩
  · exact ⟨session.modified, rfl, rfl⟩

@[simp] theorem data_removeAttribute :
    (session.removeAttribute name heap).1.data = session.data := by
  obtain ⟨modified, hsession, -⟩ := removeAttribute_eq name session heap
  rw [hsession]

end HttpSession

/-! ## Stores -/

inductive Backend
  | memory
  | redis
  deriving DecidableEq, Repr

/-- The in-memory store keeps the dictionary itself, Redis keeps a text. -/
inductive Entry (V : Type)
  | shared (data : ℕ)
  | text (data : Dict String V)

namespace Entry

/-- `get` -/
def fetch (entry : Entry V) (heap : Heap V) : ℕ × Heap V :=
  match entry with
  | .shared data => (data, heap)
  | .text data => heap.alloc data

def contents (entry : Entry V) (heap : Heap V) : Dict String V :=
  match entry with
  | .shared data => heap.dicts data
  | .text data => data

end Entry

/-- `save`, which may raise. -/
def Backend.entry (backend : Backend) (json : Json V) (data : ℕ)
    (heap : Heap V) : Option (Entry V) :=
  match backend with
  | .memory => some (.shared data)
  | .redis => (json.reloadData (heap.dicts data)).map .text

/-! ## The filter -/

inductive Phase
  | waiting
  | handling (session : HttpSession)
  | done (session : HttpSession)
  deriving DecidableEq, Repr

structure FilterRun (ι V : Type) where
  heap : Heap V
  store : Dict String (Entry V)
  used : List String
  requests : ι → Phase

inductive SetCookie
  | unchanged
  | set (id : String)
  | delete
  deriving DecidableEq, Repr

inductive FilterEvent (ι V : Type)
  | obtained (request : ι) (id : String)
  | created (request : ι) (id : String)
  | updated (request : ι) (name : String) (value : Option V)
  | invalidated (request : ι)
  | saved (request : ι) (id : String)
  | unsaved (request : ι) (id : String)
  | deleted (request : ι) (id : String)
  | responded (request : ι) (cookie : SetCookie)
  | expired (id : String)
  deriving DecidableEq

/-- The scheduling choices: a request starts with its cookie, a reading of the
clock and the outcome of `uuid4`, its handler acts on the session, or it ends
with or without an exception; the lifetime of a stored session runs out. -/
inductive FilterPick (ι V : Type)
  | load (request : ι) (cookie : Option String) (now : ℚ) (newId : String)
  | set (request : ι) (name : String) (value : V)
  | remove (request : ι) (name : String)
  | invalidate (request : ι)
  | finish (request : ι) (raised : Bool)
  | expire (id : String)

section Filter

variable [DecidableEq ι] (json : Json V) (backend : Backend)

def stored (cookie : Option String) (store : Dict String (Entry V)) :
    Option (String × Entry V) :=
  match cookie with
  | none => none
  | some id =>
    if id = "" then none else (store.get? id).map fun entry => (id, entry)

def loadOrCreate (request : ι) (cookie : Option String) (now : ℚ)
    (newId : String) (run : FilterRun ι V) :
    Option (FilterRun ι V × List (FilterEvent ι V)) :=
  match stored cookie run.store with
  | some (id, entry) =>
    let (data, heap) := entry.fetch run.heap
    let (session, heap) := HttpSession.init json now id data false heap
    some ({ run with
        heap := heap
        requests := Function.update run.requests request (.handling session) },
      [.obtained request id])
  | none =>
    if newId ∈ run.used then none
    else
      let (data, heap) := run.heap.alloc .empty
      let (session, heap) := HttpSession.init json now newId data true heap
      some ({ run with
          heap := heap
          used := newId :: run.used
          requests := Function.update run.requests request
            (.handling session) },
        [.created request newId])

def act (request : ι) (action : HttpSession → Heap V → HttpSession × Heap V)
    (session : HttpSession) (run : FilterRun ι V) : FilterRun ι V :=
  let (session, heap) := action session run.heap
  { run with
    heap := heap
    requests := Function.update run.requests request (.handling session) }

/-- `_persist_session`, and whether it raises. -/
def persist (request : ι) (session : HttpSession) (run : FilterRun ι V) :
    Dict String (Entry V) × List (FilterEvent ι V) × Bool :=
  if session.invalidated then
    (run.store.erase session.id, [.deleted request session.id], false)
  else if session.modified then
    match backend.entry json session.data run.heap with
    | some entry =>
      (run.store.set session.id entry, [.saved request session.id], false)
    | none => (run.store, [.unsaved request session.id], true)
  else (run.store, [], false)

def setCookie (session : HttpSession) : SetCookie :=
  if session.invalidated then .delete
  else if session.isNew then .set session.id
  else .unchanged

/-- `do_filter` after the handler. -/
def finish (request : ι) (raised : Bool) (session : HttpSession)
    (run : FilterRun ι V) : FilterRun ι V × List (FilterEvent ι V) :=
  let (store, events, failed) := persist json backend request session run
  ({ run with
      store := store
      requests := Function.update run.requests request (.done session) },
    events ++ if raised || failed then []
      else [.responded request (setCookie session)])

def filterMachine : Machine (FilterRun ι V) (FilterPick ι V) (FilterEvent ι V) where
  step run
    | .load request cookie now newId =>
      match run.requests request with
      | .waiting => loadOrCreate json request cookie now newId run
      | _ => none
    | .set request name value =>
      match run.requests request with
      | .handling session =>
        some (act request (HttpSession.setAttribute name value) session run,
          [.updated request name (some value)])
      | _ => none
    | .remove request name =>
      match run.requests request with
      | .handling session =>
        some (act request (HttpSession.removeAttribute name) session run,
          [.updated request name none])
      | _ => none
    | .invalidate request =>
      match run.requests request with
      | .handling session =>
        some (act request (fun session heap => (session.invalidate, heap)) session run,
          [.invalidated request])
      | _ => none
    | .finish request raised =>
      match run.requests request with
      | .handling session => some (finish json backend request raised session run)
      | _ => none
    | .expire id =>
      some ({ run with store := run.store.erase id }, [.expired id])

end Filter

def FilterRun.start (heap : Heap V) (store : Dict String (Entry V)) : FilterRun ι V :=
  ⟨heap, store, store.keys, fun _ => .waiting⟩

end PyFly.Session
