import Mathlib.Data.List.Induction
import PyFly.Library.Histories
import PyFly.Library.InsertionDict

/-!
# The cache manager

Writes go to two adapters and a failure of the primary one is swallowed, so
the primary adapter may keep what a write has replaced.  Reads prefer it.
-/

namespace PyFly.Cache

open Library

variable {κ V : Type} [DecidableEq κ]

/-- What an adapter holds; a stored `None` reads like a missing key. -/
abbrev Store (κ V : Type) := Dict κ (Option V)

namespace Store

def get (store : Store κ V) (key : κ) : Option V := (store.get? key).join

def put (store : Store κ V) (key : κ) (value : Option V) : Store κ V :=
  store.set key value

def evict (store : Store κ V) (key : κ) : Bool × Store κ V :=
  ((store.get? key).isSome, store.erase key)

@[simp] theorem get_empty (key : κ) :
    Store.get (Dict.empty : Store κ V) key = none := by
  simp [Store.get]

@[simp] theorem get_put (store : Store κ V) (key other : κ)
    (value : Option V) :
    Store.get (store.put key value) other = if other = key then value else store.get other := by
  by_cases h : other = key
  · simp [Store.get, put, h]
  · simp [Store.get, put, h, Dict.get?_set_of_ne h]

@[simp] theorem get_evict (store : Store κ V) (key other : κ) :
    Store.get (store.evict key).2 other = if other = key then none else store.get other := by
  by_cases h : other = key <;> simp [Store.get, evict, Dict.get?_erase, h]

end Store

/-! ## Requests -/

inductive Request (κ V : Type)
  | get (key : κ)
  | put (key : κ) (value : Option V)
  | evict (key : κ)
  | clear

structure Call (κ V : Type) where
  request : Request κ V
  primaryFails : Bool

inductive Reply (V : Type)
  | value (value : Option V)
  | evicted (existed : Bool)
  | done
  deriving DecidableEq

structure CacheManager (κ V : Type) where
  primary : Store κ V := Dict.empty
  fallback : Store κ V := Dict.empty

namespace CacheManager

def get (manager : CacheManager κ V) (fails : Bool) (key : κ) : Option V :=
  match if fails then none else manager.primary.get key with
  | some value => some value
  | none => manager.fallback.get key

def put (manager : CacheManager κ V) (fails : Bool) (key : κ)
    (value : Option V) : CacheManager κ V where
  primary := if fails then manager.primary else manager.primary.put key value
  fallback := manager.fallback.put key value

def evict (manager : CacheManager κ V) (fails : Bool) (key : κ) : Bool × CacheManager κ V :=
  let primary :=
    if fails then (false, manager.primary) else manager.primary.evict key
  let fallback := manager.fallback.evict key
  (primary.1 || fallback.1, ⟨primary.2, fallback.2⟩)

def clear (manager : CacheManager κ V) (fails : Bool) : CacheManager κ V where
  primary := if fails then manager.primary else Dict.empty
  fallback := Dict.empty

def handle (manager : CacheManager κ V) (call : Call κ V) : Reply V × CacheManager κ V :=
  match call.request with
  | .get key => (.value (manager.get call.primaryFails key), manager)
  | .put key value => (.done, manager.put call.primaryFails key value)
  | .evict key =>
    let result := manager.evict call.primaryFails key
    (.evicted result.1, result.2)
  | .clear => (.done, manager.clear call.primaryFails)

def after (calls : List (Call κ V)) : CacheManager κ V :=
  calls.foldl (fun manager call => (manager.handle call).2) {}

end CacheManager

namespace Request

def Writes (key : κ) : Request κ V → Prop
  | .get _ => False
  | .put other _ => other = key
  | .evict other => other = key
  | .clear => True

def apply (key : κ) (current : Option V) : Request κ V → Option V
  | .get _ => current
  | .put other value => if key = other then value else current
  | .evict other => if key = other then none else current
  | .clear => none

end Request

def lastPut (requests : List (Request κ V)) (key : κ) : Option V :=
  requests.foldl (Request.apply key) none

def requested (calls : List (Call κ V)) : List (Request κ V) :=
  calls.map Call.request

def carriedOut (calls : List (Call κ V)) : List (Request κ V) :=
  requested (calls.filter fun call => !call.primaryFails)

structure Fresh (before : List (Call κ V)) (call : Call κ V) : Prop where
  last : ∀ key, call.request = .get key →
    ((CacheManager.after before).handle call).1 = .value (lastPut (requested before) key)
  kept : ∀ key value, call.request = .get key →
    ((CacheManager.after before).handle call).1 = .value (some value) →
      ∃ front back, requested before = front ++ .put key (some value) :: back ∧
        ∀ later ∈ back, ¬ later.Writes key

def PrimaryCurrent (before : List (Call κ V)) (call : Call κ V) : Prop :=
  ∀ key value, call.request = .get key → call.primaryFails = false →
    lastPut (carriedOut before) key = some value → lastPut (requested before) key = some value

/-! ## The two stores -/

theorem lastPut_concat (requests : List (Request κ V)) (request : Request κ V) (key : κ) :
    lastPut (requests ++ [request]) key = request.apply key (lastPut requests key) := by
  simp [lastPut]

omit [DecidableEq κ] in
theorem requested_concat (calls : List (Call κ V)) (call : Call κ V) :
    requested (calls ++ [call]) = requested calls ++ [call.request] := by
  simp [requested]

omit [DecidableEq κ] in
theorem carriedOut_concat (calls : List (Call κ V)) (call : Call κ V) :
    carriedOut (calls ++ [call]) = if call.primaryFails then carriedOut calls
      else carriedOut calls ++ [call.request] := by
  cases h : call.primaryFails <;> simp [carriedOut, requested, h]

namespace CacheManager

variable {calls : List (Call κ V)}

theorem after_concat (calls : List (Call κ V)) (call : Call κ V) :
    after (calls ++ [call]) = ((after calls).handle call).2 := by
  simp [after]

theorem fallback_handle (manager : CacheManager κ V) (call : Call κ V) (key : κ) :
    (manager.handle call).2.fallback.get key =
      call.request.apply key (manager.fallback.get key) := by
  cases h : call.request <;> simp [handle, put, evict, clear, Request.apply, h]

theorem primary_handle (manager : CacheManager κ V) (call : Call κ V) (key : κ) :
    (manager.handle call).2.primary.get key = if call.primaryFails then manager.primary.get key
      else call.request.apply key (manager.primary.get key) := by
  cases h : call.request <;> cases hfails : call.primaryFails <;>
    simp [handle, put, evict, clear, Request.apply, h, hfails]

theorem fallback_after (calls : List (Call κ V)) (key : κ) :
    (after calls).fallback.get key = lastPut (requested calls) key := by
  induction calls using List.reverseRecOn with
  | nil => simp [after, requested, lastPut]
  | append_singleton calls call ih =>
    rw [after_concat, fallback_handle, requested_concat, lastPut_concat, ih]

theorem primary_after (calls : List (Call κ V)) (key : κ) :
    (after calls).primary.get key = lastPut (carriedOut calls) key := by
  induction calls using List.reverseRecOn with
  | nil => simp [after, carriedOut, requested, lastPut]
  | append_singleton calls call ih =>
    rw [after_concat, primary_handle, carriedOut_concat, ih]
    cases call.primaryFails <;> simp [lastPut_concat]

theorem handle_get {call : Call κ V} {key : κ} (hcall : call.request = .get key) :
    ((after calls).handle call).1 = .value (match if call.primaryFails then none
        else lastPut (carriedOut calls) key with
      | some value => some value
      | none => lastPut (requested calls) key) := by
  simp [handle, hcall, get, primary_after, fallback_after]

end CacheManager

/-! ## Fresh values -/

omit [DecidableEq κ] in
theorem Request.not_writes_get (key other : κ) :
    ¬ (Request.get other : Request κ V).Writes key :=
  id

theorem apply_of_not_writes {request : Request κ V} {key : κ}
    (h : ¬ request.Writes key) (current : Option V) :
    request.apply key current = current := by
  cases request with
  | get other => rfl
  | put other value =>
    have hne : key ≠ other := fun heq => h heq.symm
    simp [Request.apply, hne]
  | evict other =>
    have hne : key ≠ other := fun heq => h heq.symm
    simp [Request.apply, hne]
  | clear => exact absurd trivial h

theorem exists_put_of_lastPut {requests : List (Request κ V)} {key : κ}
    {value : V} (h : lastPut requests key = some value) :
    ∃ front back, requests = front ++ .put key (some value) :: back ∧
      ∀ later ∈ back, ¬ later.Writes key := by
  induction requests using List.reverseRecOn with
  | nil => simp [lastPut] at h
  | append_singleton requests request ih =>
    rw [lastPut_concat] at h
    by_cases hwrites : request.Writes key
    · cases request with
      | get other => exact absurd hwrites (Request.not_writes_get key other)
      | put other written =>
        have hkey : other = key := hwrites
        have hvalue : written = some value := by
          simpa [Request.apply, hkey] using h
        exact ⟨requests, [], by rw [hkey, hvalue], by simp⟩
      | evict other =>
        have hkey : other = key := hwrites
        simp [Request.apply, hkey] at h
      | clear => simp [Request.apply] at h
    · rw [apply_of_not_writes hwrites] at h
      obtain ⟨front, back, hsplit, hback⟩ := ih h
      refine ⟨front, back ++ [request], by simp [hsplit], ?_⟩
      intro later hlater
      rcases List.mem_append.mp hlater with hlater | hlater
      · exact hback later hlater
      · rw [List.mem_singleton.mp hlater]
        exact hwrites

theorem fresh_iff_primaryCurrent (before : List (Call κ V))
    (call : Call κ V) : Fresh before call ↔ PrimaryCurrent before call := by
  constructor
  · intro hfresh key value hcall hup htold
    have hlast := hfresh.last key hcall
    rw [CacheManager.handle_get hcall] at hlast
    simpa [hup, htold] using hlast.symm
  · intro hcurrent
    have hlast : ∀ key, call.request = .get key → ((CacheManager.after before).handle call).1 =
          .value (lastPut (requested before) key) := by
      intro key hcall
      rw [CacheManager.handle_get hcall]
      cases hup : call.primaryFails with
      | true => simp
      | false =>
        cases htold : lastPut (carriedOut before) key with
        | none => simp
        | some value => simp [hcurrent key value hcall hup htold]
    refine ⟨hlast, ?_⟩
    intro key value hcall hreply
    rw [hlast key hcall] at hreply
    exact exists_put_of_lastPut (by simpa using hreply)

/-- Every get of a sequence of calls is fresh exactly when the primary adapter
is current whenever it answers one. -/
theorem fresh_iff_current (calls : List (Call κ V)) :
    AtEach Fresh calls ↔ AtEach PrimaryCurrent calls :=
  AtEach.iff_of_at fun front call _ _ => fresh_iff_primaryCurrent front call

/-- The primary adapter misses a put and serves the value before it. -/
def outage : List (Call Bool ℕ) :=
  [⟨.put true (some 1), false⟩, ⟨.put true (some 2), true⟩, ⟨.get true, false⟩]

theorem not_fresh_outage : ¬ AtEach Fresh outage := by
  intro hfresh
  have hget := (hfresh [⟨.put true (some 1), false⟩, ⟨.put true (some 2), true⟩]
    ⟨.get true, false⟩ [] rfl).last true rfl
  revert hget
  decide

end PyFly.Cache
