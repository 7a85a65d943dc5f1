import PyFly.MemoryPersistence
import PyFly.OrchestratorContract
import PyFly.SagaEngine
import PyFly.TccResultTruth

/-!
# Recovery of stale transactions

`SagaRecoveryService.recover_stale` asks the adapter for the records started
before a cutoff and marks those still in flight as failed.  The engines write
`started_at` as a text, which the adapter cannot compare with the cutoff, so
recovery works only on a store which no engine has left a record in.
-/

namespace PyFly.Transactional

open Library

variable {E : Type}

/-- `started_at.isoformat()`. -/
abbrev IsoFormat := ℚ → String

/-- The state which an engine hands to `persist_state`. -/
def initialState (nameField : String) (isoformat : IsoFormat)
    (name correlationId : String) (headers : Dict String String)
    (startedAt : ℚ) : TransactionState :=
  Dict.ofList [(nameField, .text name), ("correlation_id", .text correlationId),
    ("headers", .mapping headers), ("started_at", .text (isoformat startedAt))]

def sagaState := initialState "saga_name"

def tccState := initialState "tcc_name"

def isInFlight (state : TransactionState) : Bool :=
  match state.get? "status" with
  | some (.text status) => status == "IN_FLIGHT"
  | _ => false

/-- An events port, by the exception which `on_completed` raises, if any, for
a saga name and a correlation id. -/
abbrev RecoveryEvents (E : Type) := FieldValue → String → Option E

def notifyRecovered (events : Option (RecoveryEvents E))
    (state : TransactionState) (correlationId : String) : Option E :=
  events.bind fun onCompleted =>
    onCompleted ((state.get? "saga_name").getD (.text "unknown")) correlationId

def correlationIdOf (state : TransactionState) : Except (PersistenceError E) String :=
  match state.get? "correlation_id" with
  | some (.text correlationId) => .ok correlationId
  | _ => .error (.keyError "correlation_id")

section Recovery

variable (events : Option (RecoveryEvents E)) (markedAt : ℕ → ℚ)

/-- The loop of `recover_stale`, with the number recovered so far. -/
def recoverEach : List (String × TransactionState) → ℕ → Store →
      Store × Except (PersistenceError E) ℕ
  | [], recovered, store => (store, .ok recovered)
  | item :: rest, recovered, store =>
    if isInFlight item.2 then
      match correlationIdOf item.2 with
      | .error error => (store, .error error)
      | .ok correlationId =>
        match store.markCompleted (markedAt recovered) correlationId
          false with
        | .error error => (store, .error error)
        | .ok marked =>
          match notifyRecovered events item.2 correlationId with
          | some error => (marked, .error (.raised error))
          | none => recoverEach rest (recovered + 1) marked
    else recoverEach rest recovered store

/-- `recover_stale`: the store afterwards and what the call returns. -/
def recoverStale (now threshold : ℚ) (store : Store) : Store × Except (PersistenceError E) ℕ :=
  match Store.getStale (now - threshold) store with
  | .error error => (store, .error error)
  | .ok stale => recoverEach events markedAt stale 0 store

end Recovery

/-- A call which reaches the adapter: from one of the engines, or maintenance.
Durations are in seconds. -/
inductive PersistenceCall (E : Type)
  | persistSaga (sagaName correlationId : String) (headers : Dict String String) (startedAt : ℚ)
  | persistTcc (tccName correlationId : String) (headers : Dict String String) (startedAt : ℚ)
  | markCompleted (correlationId : String) (successful : Bool)
  | cleanup (olderThan : ℚ)
  | recoverStale (events : Option (RecoveryEvents E)) (markedAt : ℕ → ℚ) (threshold : ℚ)

def keepOnError (store : Store) : Except (PersistenceError E) Store → Store
  | .ok written => written
  | .error _ => store

def performCall (isoformat : IsoFormat) (now : ℚ) (store : Store) : PersistenceCall E → Store
  | .persistSaga name correlationId headers startedAt =>
    keepOnError store (@Store.persistState E now
      (sagaState isoformat name correlationId headers startedAt) store)
  | .persistTcc name correlationId headers startedAt =>
    keepOnError store (@Store.persistState E now
      (tccState isoformat name correlationId headers startedAt) store)
  | .markCompleted correlationId successful =>
    keepOnError store (@Store.markCompleted E now correlationId successful store)
  | .cleanup olderThan => (store.cleanup now olderThan).1
  | .recoverStale events markedAt threshold =>
    (recoverStale events markedAt now threshold store).1

def runHistory (isoformat : IsoFormat) : List (ℚ × PersistenceCall E) → Store → Store
  | [], store => store
  | (now, call) :: rest, store =>
    runHistory isoformat rest (performCall isoformat now store call)

/-- Every record holds `started_at` as an engine has written it. -/
def EngineWritten (isoformat : IsoFormat) (store : Store) : Prop :=
  ∀ item ∈ store.items, ∃ instant, item.2.get? "started_at" = some (.text (isoformat instant))

section EngineWritten

variable {isoformat : IsoFormat} {store : Store}

theorem EngineWritten.of_get? (h : EngineWritten isoformat store)
    {correlationId : String} {state : TransactionState}
    (hget : store.get? correlationId = some state) :
    ∃ instant, state.get? "started_at" = some (.text (isoformat instant)) :=
  h (correlationId, state) (Dict.get?_eq_some_iff.mp hget)

theorem EngineWritten.set (h : EngineWritten isoformat store)
    (correlationId : String) {state : TransactionState}
    (hstate : ∃ instant, state.get? "started_at" = some (.text (isoformat instant))) :
    EngineWritten isoformat (store.set correlationId state) := by
  intro item hitem
  rcases Dict.mem_items_set hitem with hnew | hold
  · rw [hnew]
    exact hstate
  · exact h item hold

theorem initialState_startedAt {nameField : String}
    (name correlationId : String) (headers : Dict String String)
    (startedAt : ℚ) :
    (initialState nameField isoformat name correlationId headers
      startedAt).get? "started_at" = some (.text (isoformat startedAt)) := by
  simp [initialState, Dict.ofList, Dict.get?_set_self]

theorem completeState_startedAt (now : ℚ) (successful : Bool) (state : TransactionState) :
    (Store.completeState now successful state).get? "started_at" = state.get? "started_at" := by
  simp [Store.completeState, Dict.get?_set_of_ne]

theorem EngineWritten.persistState (h : EngineWritten isoformat store)
    (now : ℚ) {state : TransactionState} {instant : ℚ}
    (hstate : state.get? "started_at" = some (.text (isoformat instant))) :
    EngineWritten isoformat (keepOnError store (@Store.persistState E now state store)) := by
  unfold Store.persistState
  split
  · apply h.set
    have hdefault : (state.setDefault "status" (.text "IN_FLIGHT")).get? "started_at" =
          state.get? "started_at" :=
      Dict.get?_setDefault_of_ne (by decide) _
    refine ⟨instant, ?_⟩
    rw [Dict.get?_setDefault_of_mem, hdefault, hstate]
    exact Dict.mem_keys_of_get? (hdefault.trans hstate)
  · exact h

theorem EngineWritten.markCompleted (h : EngineWritten isoformat store)
    (now : ℚ) (correlationId : String) (successful : Bool) :
    EngineWritten isoformat (keepOnError store
      (@Store.markCompleted E now correlationId successful store)) := by
  unfold Store.markCompleted
  cases hget : store.get? correlationId with
  | none => exact h
  | some state =>
    apply h.set
    obtain ⟨instant, hinstant⟩ := h.of_get? hget
    exact ⟨instant, (completeState_startedAt now successful state).trans hinstant⟩

theorem EngineWritten.cleanup (h : EngineWritten isoformat store) (now olderThan : ℚ) :
    EngineWritten isoformat (store.cleanup now olderThan).1 :=
  fun item hitem => h item (Dict.mem_items_foldl_erase hitem)

/-- A record of an engine stops `get_stale`. -/
theorem EngineWritten.recoverStale (h : EngineWritten isoformat store)
    (events : Option (RecoveryEvents E)) (markedAt : ℕ → ℚ)
    (now threshold : ℚ) :
    recoverStale events markedAt now threshold store =
      (store, if store.items = [] then .ok 0 else .error .typeError) := by
  cases hitems : store.items with
  | nil =>
    simp [Transactional.recoverStale, Store.getStale, hitems, Store.staleStates, recoverEach]
  | cons item rest =>
    have hmem : item ∈ store.items := by simp [hitems]
    obtain ⟨instant, hinstant⟩ := h item hmem
    simp [Transactional.recoverStale, Store.getStale, hitems,
      Store.staleStates, hinstant, Store.isBefore]

theorem EngineWritten.performCall (h : EngineWritten isoformat store)
    (now : ℚ) (call : PersistenceCall E) :
    EngineWritten isoformat (Transactional.performCall isoformat now store call) := by
  cases call with
  | persistSaga name correlationId headers startedAt =>
    exact h.persistState now (initialState_startedAt name correlationId headers startedAt)
  | persistTcc name correlationId headers startedAt =>
    exact h.persistState now (initialState_startedAt name correlationId headers startedAt)
  | markCompleted correlationId successful =>
    exact h.markCompleted now correlationId successful
  | cleanup olderThan => exact h.cleanup now olderThan
  | recoverStale events markedAt threshold =>
    simp only [Transactional.performCall]
    rw [h.recoverStale events markedAt now threshold]
    exact h

theorem EngineWritten.runHistory (history : List (ℚ × PersistenceCall E))
    (h : EngineWritten isoformat store) :
    EngineWritten isoformat (Transactional.runHistory isoformat history store) := by
  induction history generalizing store with
  | nil => exact h
  | cons entry rest ih => exact ih (h.performCall entry.1 entry.2)

end EngineWritten

section EngineCalls

variable {ι V : Type}

def sagaCalls (saga : Saga.SagaDefinition ι) (request : Saga.SagaRequest)
    (startedAt : ℚ) (trace : List (Saga.EngineEvent ι V E)) :
    List (PersistenceCall E) :=
  trace.filterMap fun event =>
    match event with
    | .statePersisted =>
      some (.persistSaga saga.name request.correlationId request.headers startedAt)
    | .marked success =>
      some (.markCompleted request.correlationId success)
    | _ => none

def tccCalls (tccDef : Tcc.TccDefinition ι) (request : Tcc.TccRequest V)
    (trace : List (Tcc.TccQuery ι V E)) : List (PersistenceCall E) :=
  trace.filterMap fun query =>
    match query with
    | .persistState startedAt =>
      some (.persistTcc tccDef.name request.correlationId request.headers startedAt)
    | .markCompleted success =>
      some (.markCompleted request.correlationId success)
    | _ => none

end EngineCalls

def IsStale (isoformat : IsoFormat) (cutoff : ℚ) (state : TransactionState) :
    Prop :=
  isInFlight state = true ∧ ∃ instant < cutoff,
    state.get? "started_at" = some (.datetime instant) ∨
      state.get? "started_at" = some (.text (isoformat instant))

/-- What recovery is for: it returns normally with the number of the stale
records, marks these as failed and leaves the others as they are. -/
structure RecoversExactly (isoformat : IsoFormat) (cutoff : ℚ) (store : Store)
    (outcome : Store × Except (PersistenceError E) ℕ)
    (stale : List String) : Prop where
  distinct : stale.Nodup
  mem_iff : ∀ correlationId, correlationId ∈ stale ↔
    ∃ state, store.get? correlationId = some state ∧ IsStale isoformat cutoff state
  completes : outcome.2 = .ok stale.length
  keys : outcome.1.keys = store.keys
  failed : ∀ correlationId ∈ stale, ∀ state,
    store.get? correlationId = some state → ∃ instant, outcome.1.get? correlationId =
        some (Store.completeState instant false state)
  others : ∀ correlationId ∉ stale, outcome.1.get? correlationId = store.get? correlationId

def storeAfter (isoformat : IsoFormat) (history : List (ℚ × PersistenceCall E)) :
    Store :=
  runHistory isoformat history Dict.empty

theorem storeAfter_engineWritten (isoformat : IsoFormat)
    (history : List (ℚ × PersistenceCall E)) :
    EngineWritten isoformat (storeAfter isoformat history) := by
  apply EngineWritten.runHistory
  intro item hitem
  cases hitem

/-- Recovery does what it is for exactly when no record is left in the store:
any record makes `get_stale` raise `TypeError`. -/
theorem recoverStale_exact_iff (isoformat : IsoFormat) (history : List (ℚ × PersistenceCall E))
    (events : Option (RecoveryEvents E)) (markedAt : ℕ → ℚ)
    (now threshold : ℚ) :
    (∃ stale, RecoversExactly isoformat (now - threshold) (storeAfter isoformat history)
      (recoverStale events markedAt now threshold (storeAfter isoformat history)) stale) ↔
      (storeAfter isoformat history).items = [] := by
  have hwritten := storeAfter_engineWritten isoformat history
  have houtcome := hwritten.recoverStale events markedAt now threshold
  generalize storeAfter isoformat history = store at houtcome
  rw [houtcome]
  constructor
  · intro h
    obtain ⟨stale, hstale⟩ := h
    have hcompletes := hstale.completes
    by_contra hrecord
    simp [hrecord] at hcompletes
  · intro hempty
    have hget : ∀ correlationId, store.get? correlationId = none := by
      intro correlationId
      simp [Dict.get?, hempty]
    refine ⟨[], List.nodup_nil, ?_, ?_, rfl, ?_, ?_⟩
    · simp [hget]
    · simp [hempty]
    · simp
    · simp

def quietPersistence : PersistencePort E where
  persistState := none
  persistStateCancelled := .propagates
  markCompleted := fun _ => none
  markCompletedCancelled := fun _ => .propagates

def mixedHistory : List (ℚ × PersistenceCall Unit) :=
  let sagaEnv : Saga.Environment ℕ Unit Unit :=
    { Saga.Environment.obliging () () with
      persistence := some quietPersistence }
  let tccEnv : Tcc.TccEnvironment ℕ Unit Unit :=
    { Tcc.TccEnvironment.obliging () with
      persistence := some quietPersistence }
  let sagaRequest : Saga.SagaRequest := ⟨"saga-1", Dict.empty, .strictSequential⟩
  let tccRequest : Tcc.TccRequest Unit := ⟨"tcc-1", Dict.empty, none⟩
  (sagaCalls Saga.chainSaga sagaRequest 0
      (Saga.executeSaga Saga.chainSaga sagaEnv sagaRequest []).trace ++
    tccCalls (Tcc.singleTcc false) tccRequest
      ((Tcc.TccRun.executeTcc tccEnv (Tcc.singleTcc false)
        tccRequest).queries tccEnv.answer)).map fun call => (0, call)

/-- The saga is still in flight after a thousand seconds, and recovery raises
`TypeError` on its record. -/
theorem recoverStale_fails_in_flight :
    ¬ ∃ stale, RecoversExactly (fun _ => "2026-01-01T00:00:00+00:00") (1000 - 600)
      (storeAfter (fun _ => "2026-01-01T00:00:00+00:00") mixedHistory)
      (recoverStale (none : Option (RecoveryEvents Unit)) (fun _ => 1000)
        1000 600 (storeAfter (fun _ => "2026-01-01T00:00:00+00:00") mixedHistory)) stale := by
  have houtcome := (storeAfter_engineWritten
    (fun _ => "2026-01-01T00:00:00+00:00") mixedHistory).recoverStale
    (none : Option (RecoveryEvents Unit)) (fun _ => 1000) 1000 600
  have hlength : (storeAfter (fun _ => "2026-01-01T00:00:00+00:00")
      mixedHistory).items.length = 2 := by
    rfl
  intro h
  obtain ⟨stale, hstale⟩ := h
  have hcompletes := hstale.completes
  rw [houtcome, if_neg (by intro hnil; simp [hnil] at hlength)]
    at hcompletes
  cases hcompletes

end PyFly.Transactional
