import PyFly.Library.Histories
import PyFly.SagaRecovery

/-!
# Terminal records

What the calls on one correlation id have come to, whether they come from one
execution or from several which share the id, and how the record in the store
follows it.  Recovery stops at the first record of an engine and changes
nothing.
-/

namespace PyFly.Transactional

open Library

variable {E : Type} {isoformat : IsoFormat}

/-! ## What a record has come to -/

inductive RecordPhase
  | absent
  | running
  | ended (successful : Bool) (endedAt : ℚ)

def RecordPhase.step (correlationId : String) (phase : RecordPhase) :
    ℚ × PersistenceCall E → RecordPhase
  | (_, .persistSaga _ started _ _) =>
    if started = correlationId then running else phase
  | (_, .persistTcc _ started _ _) =>
    if started = correlationId then running else phase
  | (now, .markCompleted marked successful) =>
    if marked = correlationId then
      match phase with
      | absent => absent
      | _ => ended successful now
    else phase
  | (now, .cleanup olderThan) =>
    match phase with
    | ended successful endedAt =>
      if endedAt < now - olderThan then absent
      else ended successful endedAt
    | _ => phase
  | (_, .recoverStale _ _ _) => phase

def phaseAfter (correlationId : String)
    (history : List (ℚ × PersistenceCall E)) : RecordPhase :=
  history.foldl (RecordPhase.step correlationId) .absent

theorem phaseAfter_concat (correlationId : String)
    (history : List (ℚ × PersistenceCall E)) (entry : ℚ × PersistenceCall E) :
    phaseAfter correlationId (history ++ [entry]) =
      (phaseAfter correlationId history).step correlationId entry := by
  simp [phaseAfter]

/-- The status which `mark_completed` writes. -/
def terminalStatus (successful : Bool) : String :=
  if successful then "COMPLETED" else "FAILED"

def RecordPhase.status : RecordPhase → Option String
  | absent => none
  | running => some "IN_FLIGHT"
  | ended successful _ => some (terminalStatus successful)

theorem terminalStatus_injective : Function.Injective terminalStatus := by
  intro first second hequal
  cases first <;> cases second <;> simp_all [terminalStatus]

def RecordPhase.Holds : RecordPhase → Option TransactionState → Prop
  | absent, record => record = none
  | running, record => ∃ state, record = some state ∧
      state.get? "status" = some (.text "IN_FLIGHT")
  | ended successful endedAt, record => ∃ state, record = some state ∧
      state.get? "status" = some (.text (terminalStatus successful)) ∧
      state.get? "completed_at" = some (.datetime endedAt)

/-! ## The store follows -/

theorem storeAfter_concat (history : List (ℚ × PersistenceCall E))
    (now : ℚ) (call : PersistenceCall E) :
    storeAfter isoformat (history ++ [(now, call)]) =
      performCall isoformat now (storeAfter isoformat history) call := by
  have hrun : ∀ store : Store, runHistory isoformat (history ++ [(now, call)]) store =
        performCall isoformat now (runHistory isoformat history store)
          call := by
    induction history with
    | nil => exact fun store => rfl
    | cons entry rest ih => exact fun store => ih _
  exact hrun Dict.empty

variable {nameField : String}

theorem initialState_status (isoformat : IsoFormat)
    (hname : nameField ≠ "status") (name correlationId : String)
    (headers : Dict String String) (startedAt : ℚ) :
    (initialState nameField isoformat name correlationId headers
      startedAt).get? "status" = none := by
  rw [Dict.get?_eq_none_iff]
  intro hmem
  obtain ⟨value, hvalue⟩ := Dict.mem_keys_iff.mp hmem
  have hitem := Dict.mem_items_ofList (Dict.get?_eq_some_iff.mp hvalue)
  simp [hname.symm] at hitem

theorem persistState_get? (isoformat : IsoFormat) (hname : nameField ≠ "status")
    (now : ℚ) (name correlationId : String) (headers : Dict String String)
    (startedAt : ℚ) (store : Store) :
    ∃ state, keepOnError store (@Store.persistState E now
        (initialState nameField isoformat name correlationId headers
          startedAt) store) = store.set correlationId state ∧
      state.get? "status" = some (.text "IN_FLIGHT") := by
  have hcorrelation : (initialState nameField isoformat name correlationId
      headers startedAt).get? "correlation_id" = some (.text correlationId) := by
    simp [initialState, Dict.ofList, Dict.get?_set_of_ne]
  have hstatus := initialState_status isoformat hname name correlationId headers startedAt
  refine ⟨((initialState nameField isoformat name correlationId headers
    startedAt).setDefault "status" (.text "IN_FLIGHT")).setDefault
      "started_at" (.datetime now), ?_, ?_⟩
  · unfold Store.persistState
    rw [hcorrelation]
    rfl
  · rw [Dict.get?_setDefault_of_ne (by decide)]
    unfold Dict.setDefault
    rw [if_neg (Dict.get?_eq_none_iff.mp hstatus), Dict.get?_set_self]

variable {correlationId : String} {phase : RecordPhase} {store : Store}

theorem RecordPhase.Holds.persist (hholds : phase.Holds (store.get? correlationId))
    (hname : nameField ≠ "status") (now : ℚ) (name started : String)
    (headers : Dict String String) (startedAt : ℚ) :
    (if started = correlationId then RecordPhase.running else phase).Holds
      ((keepOnError store (@Store.persistState E now
        (initialState nameField isoformat name started headers startedAt)
          store)).get? correlationId) := by
  obtain ⟨state, hstore, hstatus⟩ := persistState_get? (E := E)
    isoformat hname now name started headers startedAt store
  rw [hstore]
  by_cases hstarted : started = correlationId
  · rw [if_pos hstarted, hstarted, Dict.get?_set_self]
    exact ⟨state, rfl, hstatus⟩
  · rw [if_neg hstarted, Dict.get?_set_of_ne (Ne.symm hstarted)]
    exact hholds

theorem RecordPhase.Holds.mark {correlationId : String} {phase : RecordPhase} {store : Store}
    (hholds : phase.Holds (store.get? correlationId)) (now : ℚ)
    (marked : String) (successful : Bool) :
    (phase.step correlationId ((now, .markCompleted marked successful) :
        ℚ × PersistenceCall E)).Holds
      ((keepOnError store (@Store.markCompleted E now marked successful
        store)).get? correlationId) := by
  by_cases hmarked : marked = correlationId
  · subst hmarked
    have hended : ∀ state, store.get? marked = some state →
        (RecordPhase.ended successful now).Holds
          ((keepOnError store (@Store.markCompleted E now marked successful
            store)).get? marked) := by
      intro state hstate
      refine ⟨Store.completeState now successful state, ?_, ?_, ?_⟩
      · simp [Store.markCompleted, hstate, keepOnError]
      · simp [Store.completeState, Dict.get?_set_of_ne, terminalStatus]
      · simp [Store.completeState]
    cases phase with
    | absent =>
      have hnone : store.get? marked = none := hholds
      simp [RecordPhase.step, Store.markCompleted, hnone, keepOnError, RecordPhase.Holds]
    | running =>
      obtain ⟨state, hstate, -⟩ := hholds
      simpa [RecordPhase.step] using hended state hstate
    | ended before endedAt =>
      obtain ⟨state, hstate, -⟩ := hholds
      simpa [RecordPhase.step] using hended state hstate
  · have hsame : (keepOnError store (@Store.markCompleted E now marked
        successful store)).get? correlationId =
        store.get? correlationId := by
      unfold Store.markCompleted
      cases store.get? marked with
      | none => rfl
      | some state => exact Dict.get?_set_of_ne (Ne.symm hmarked) _
    rw [hsame]
    simpa [RecordPhase.step, hmarked] using hholds

theorem cleanup_get? (store : Store) (now olderThan : ℚ) (correlationId : String) :
    (store.cleanup now olderThan).1.get? correlationId =
      (store.get? correlationId).filter fun state =>
        !Store.isRemovable (now - olderThan) state := by
  simp only [Store.cleanup, Dict.get?_foldl_erase]
  cases hget : store.get? correlationId with
  | none => simp
  | some state =>
    have hmem : correlationId ∈ (store.items.filter fun item =>
        Store.isRemovable (now - olderThan) item.2).map Prod.fst ↔
        Store.isRemovable (now - olderThan) state = true := by
      simp only [List.mem_map, List.mem_filter]
      constructor
      · rintro ⟨item, ⟨hitem, hremovable⟩, rfl⟩
        have hsame := Dict.get?_eq_some_iff.mpr hitem
        rw [hget] at hsame
        rw [Option.some.inj hsame]
        exact hremovable
      · intro hremovable
        exact ⟨(correlationId, state), ⟨Dict.get?_eq_some_iff.mp hget, hremovable⟩, rfl⟩
    simp only [hmem, Option.filter_some]
    cases Store.isRemovable (now - olderThan) state <;> rfl

theorem RecordPhase.Holds.cleanup
    (hholds : phase.Holds (store.get? correlationId)) (now olderThan : ℚ) :
    (phase.step correlationId ((now, .cleanup olderThan) : ℚ × PersistenceCall E)).Holds
      ((store.cleanup now olderThan).1.get? correlationId) := by
  rw [cleanup_get?]
  cases phase with
  | absent =>
    have hnone : store.get? correlationId = none := hholds
    rw [hnone]
    rfl
  | running =>
    obtain ⟨state, hstate, hstatus⟩ := hholds
    have hkept : Store.isRemovable (now - olderThan) state = false := by
      unfold Store.isRemovable
      rw [hstatus]
      cases state.get? "completed_at" with
      | none => rfl
      | some value => cases value <;> simp
    rw [hstate, Option.filter_some, hkept]
    exact ⟨state, rfl, hstatus⟩
  | ended successful endedAt =>
    obtain ⟨state, hstate, hstatus, hended⟩ := hholds
    have hremovable : Store.isRemovable (now - olderThan) state =
        decide (endedAt < now - olderThan) := by
      unfold Store.isRemovable
      rw [hstatus, hended]
      cases successful <;> simp [terminalStatus]
    rw [hstate, Option.filter_some, hremovable]
    by_cases hold : endedAt < now - olderThan
    · simp [RecordPhase.step, hold, RecordPhase.Holds]
    · simpa [RecordPhase.step, hold, RecordPhase.Holds] using ⟨hstatus, hended⟩

theorem phaseAfter_holds (isoformat : IsoFormat)
    (history : List (ℚ × PersistenceCall E)) (correlationId : String) :
    (phaseAfter correlationId history).Holds
      ((storeAfter isoformat history).get? correlationId) := by
  induction history using List.reverseRecOn with
  | nil => rfl
  | append_singleton history entry ih =>
    obtain ⟨now, call⟩ := entry
    rw [phaseAfter_concat, storeAfter_concat]
    cases call with
    | persistSaga name started headers startedAt =>
      have hname : "saga_name" ≠ "status" := by decide
      exact ih.persist (E := E) hname now name started headers startedAt
    | persistTcc name started headers startedAt =>
      have hname : "tcc_name" ≠ "status" := by decide
      exact ih.persist (E := E) hname now name started headers startedAt
    | markCompleted marked successful =>
      exact ih.mark now marked successful
    | cleanup olderThan => exact ih.cleanup now olderThan
    | recoverStale events markedAt threshold =>
      have hwritten := storeAfter_engineWritten isoformat history
      simp only [performCall, RecordPhase.step]
      rw [hwritten.recoverStale events markedAt now threshold]
      exact ih

/-! ## Terminal statuses -/

def statusOf (store : Store) (correlationId : String) : Option String :=
  match (store.get? correlationId).bind (·.get? "status") with
  | some (.text status) => some status
  | _ => none

def isTerminal (status : String) : Prop :=
  status = "COMPLETED" ∨ status = "FAILED"

def KeepsTerminal (isoformat : IsoFormat) (store : Store) : ℚ × PersistenceCall E → Prop
  | (now, call) =>
    (∀ correlationId status, isTerminal status → statusOf store correlationId = some status →
      statusOf (performCall isoformat now store call) correlationId = some status ∨
        (∃ olderThan, call = .cleanup olderThan) ∧
          (performCall isoformat now store call).get? correlationId = none) ∧
      match call with
      | .markCompleted correlationId successful =>
        @Store.markCompleted E now correlationId successful store ≠
          .error (.keyError correlationId)
      | .recoverStale events markedAt threshold => ∀ key,
          (recoverStale events markedAt now threshold store).2 ≠ .error (.keyError key)
      | _ => True

def InOrderCall (history : List (ℚ × PersistenceCall E)) : ℚ × PersistenceCall E → Prop
  | (_, .persistSaga _ correlationId _ _) => ∀ successful endedAt,
      phaseAfter correlationId history ≠ .ended successful endedAt
  | (_, .persistTcc _ correlationId _ _) => ∀ successful endedAt,
      phaseAfter correlationId history ≠ .ended successful endedAt
  | (_, .markCompleted correlationId successful) =>
    phaseAfter correlationId history = .running ∨
      ∃ endedAt, phaseAfter correlationId history = .ended successful endedAt
  | _ => True

theorem RecordPhase.Holds.statusOf (hholds : phase.Holds (store.get? correlationId)) :
    Transactional.statusOf store correlationId = phase.status := by
  unfold Transactional.statusOf
  cases phase with
  | absent =>
    have hnone : store.get? correlationId = none := hholds
    rw [hnone]
    rfl
  | running =>
    obtain ⟨state, hstate, hstatus⟩ := hholds
    rw [hstate, Option.bind_some, hstatus]
    rfl
  | ended successful endedAt =>
    obtain ⟨state, hstate, hstatus, -⟩ := hholds
    rw [hstate, Option.bind_some, hstatus]
    rfl

theorem statusOf_eq_terminal {status : String} (hholds : phase.Holds (store.get? correlationId))
    (hterminal : isTerminal status) :
    statusOf store correlationId = some status ↔
      ∃ successful endedAt, phase = .ended successful endedAt ∧
        status = terminalStatus successful := by
  rw [hholds.statusOf]
  cases phase with
  | absent => simp [RecordPhase.status]
  | running =>
    simp only [RecordPhase.status, Option.some.injEq, reduceCtorEq, false_and, exists_false,
      iff_false]
    rintro rfl
    rcases hterminal with hstatus | hstatus <;> simp at hstatus
  | ended successful endedAt =>
    simp only [RecordPhase.status, Option.some.injEq, RecordPhase.ended.injEq]
    constructor
    · intro hstatus
      exact ⟨successful, endedAt, ⟨rfl, rfl⟩, hstatus.symm⟩
    · rintro ⟨_, _, ⟨rfl, rfl⟩, hstatus⟩
      exact hstatus.symm

theorem isTerminal_terminalStatus (successful : Bool) :
    isTerminal (terminalStatus successful) := by
  cases successful
  · exact Or.inr rfl
  · exact Or.inl rfl

section

variable {history : List (ℚ × PersistenceCall E)} {now : ℚ}

theorem holds_concat (isoformat : IsoFormat) (history : List (ℚ × PersistenceCall E)) (now : ℚ)
    (call : PersistenceCall E) (correlationId : String) :
    ((phaseAfter correlationId history).step correlationId (now, call)).Holds
      ((performCall isoformat now (storeAfter isoformat history) call).get? correlationId) := by
  rw [← phaseAfter_concat, ← storeAfter_concat]
  exact phaseAfter_holds isoformat (history ++ [(now, call)]) correlationId

theorem keeps_iff (isoformat : IsoFormat) (history : List (ℚ × PersistenceCall E)) (now : ℚ)
    (call : PersistenceCall E) :
    (∀ correlationId status, isTerminal status →
      statusOf (storeAfter isoformat history) correlationId = some status →
      statusOf (performCall isoformat now (storeAfter isoformat history)
          call) correlationId = some status ∨
        (∃ olderThan, call = .cleanup olderThan) ∧
          (performCall isoformat now (storeAfter isoformat history)
            call).get? correlationId = none) ↔
      ∀ correlationId successful endedAt,
        phaseAfter correlationId history = .ended successful endedAt →
        (∃ endedAt', (phaseAfter correlationId history).step correlationId
          (now, call) = .ended successful endedAt') ∨
          (∃ olderThan, call = .cleanup olderThan) ∧
            (phaseAfter correlationId history).step correlationId (now, call) = .absent := by
  have hbefore := fun correlationId =>
    phaseAfter_holds isoformat history correlationId
  have hafter := holds_concat isoformat history now call
  have habsent : ∀ (phase : RecordPhase) record, phase.Holds record →
      (record = none ↔ phase = .absent) := by
    intro phase record hholds
    cases phase with
    | absent => exact iff_of_true hholds rfl
    | running =>
      obtain ⟨state, rfl, -⟩ := hholds
      simp
    | ended successful endedAt =>
      obtain ⟨state, rfl, -⟩ := hholds
      simp
  constructor
  · intro hkeeps correlationId successful endedAt hphase
    have hterminal := isTerminal_terminalStatus successful
    have hstatus := (statusOf_eq_terminal (hbefore correlationId)
      hterminal).mpr ⟨successful, endedAt, hphase, rfl⟩
    rcases hkeeps correlationId _ hterminal hstatus with
      hkept | ⟨hcleanup, hnone⟩
    · left
      obtain ⟨successful', endedAt', hended, hsame⟩ :=
        (statusOf_eq_terminal (hafter correlationId) hterminal).mp hkept
      rw [terminalStatus_injective hsame]
      exact ⟨endedAt', hended⟩
    · exact Or.inr ⟨hcleanup, (habsent _ _ (hafter correlationId)).mp hnone⟩
  · intro hkeeps correlationId status hterminal hstatus
    obtain ⟨successful, endedAt, hphase, rfl⟩ :=
      (statusOf_eq_terminal (hbefore correlationId) hterminal).mp hstatus
    rcases hkeeps correlationId successful endedAt hphase with
      ⟨endedAt', hended⟩ | ⟨hcleanup, hnone⟩
    · left
      exact (statusOf_eq_terminal (hafter correlationId) hterminal).mpr
        ⟨successful, endedAt', hended, rfl⟩
    · exact Or.inr ⟨hcleanup, (habsent _ _ (hafter correlationId)).mpr hnone⟩

theorem markCompleted_missing_iff (isoformat : IsoFormat)
    (history : List (ℚ × PersistenceCall E)) (now : ℚ)
    (correlationId : String) (successful : Bool) :
    @Store.markCompleted E now correlationId successful
        (storeAfter isoformat history) ≠ .error (.keyError correlationId) ↔
      phaseAfter correlationId history ≠ .absent := by
  have hholds := phaseAfter_holds isoformat history correlationId
  unfold Store.markCompleted
  cases hphase : phaseAfter correlationId history with
  | absent =>
    rw [hphase] at hholds
    have hnone : (storeAfter isoformat history).get? correlationId =
        none := hholds
    simp [hnone]
  | running =>
    rw [hphase] at hholds
    obtain ⟨state, hstate, -⟩ := hholds
    simp [hstate]
  | ended before endedAt =>
    rw [hphase] at hholds
    obtain ⟨state, hstate, -⟩ := hholds
    simp [hstate]

theorem started_iff {call : PersistenceCall E} {started : String}
    (hcall : ∀ correlationId (phase : RecordPhase), phase.step correlationId (now, call) =
        if started = correlationId then .running else phase) :
    (∀ correlationId successful endedAt,
      phaseAfter correlationId history = .ended successful endedAt →
      (∃ endedAt', (phaseAfter correlationId history).step correlationId
        (now, call) = .ended successful endedAt') ∨
        (∃ olderThan, call = .cleanup olderThan) ∧
          (phaseAfter correlationId history).step correlationId (now, call) = .absent) ↔
      ∀ successful endedAt, phaseAfter started history ≠ .ended successful endedAt := by
  constructor
  · intro hkeeps successful endedAt hphase
    rcases hkeeps started successful endedAt hphase with
      ⟨endedAt', hended⟩ | ⟨-, habsent⟩
    · rw [hcall, if_pos rfl] at hended
      cases hended
    · rw [hcall, if_pos rfl] at habsent
      cases habsent
  · intro hstarts correlationId successful endedAt hphase
    left
    have hother : started ≠ correlationId := by
      rintro rfl
      exact hstarts successful endedAt hphase
    rw [hcall, if_neg hother]
    exact ⟨endedAt, hphase⟩

theorem keepsTerminal_iff (isoformat : IsoFormat)
    (history : List (ℚ × PersistenceCall E)) (entry : ℚ × PersistenceCall E) :
    KeepsTerminal isoformat (storeAfter isoformat history) entry ↔
      InOrderCall history entry := by
  obtain ⟨now, call⟩ := entry
  unfold KeepsTerminal
  dsimp only
  rw [keeps_iff]
  cases call with
  | persistSaga name started headers startedAt =>
    rw [and_true]
    exact started_iff fun _ _ => rfl
  | persistTcc name started headers startedAt =>
    rw [and_true]
    exact started_iff fun _ _ => rfl
  | markCompleted marked successful =>
    dsimp only
    rw [markCompleted_missing_iff]
    constructor
    · rintro ⟨hkeeps, hpresent⟩
      cases hphase : phaseAfter marked history with
      | absent => exact absurd hphase hpresent
      | running => exact Or.inl hphase
      | ended before endedAt =>
        right
        rcases hkeeps marked before endedAt hphase with
          ⟨endedAt', hended⟩ | ⟨⟨olderThan, hcleanup⟩, -⟩
        · rw [hphase] at hended
          simp only [RecordPhase.step, if_true] at hended
          cases hended
          exact ⟨endedAt, hphase⟩
        · cases hcleanup
    · intro horder
      constructor
      · intro correlationId before endedAt hphase
        left
        by_cases hmarked : marked = correlationId
        · subst hmarked
          rcases horder with hrunning | ⟨endedAt', hended⟩
          · rw [hrunning] at hphase
            cases hphase
          · rw [hended] at hphase
            cases hphase
            rw [hended]
            exact ⟨now, by simp [RecordPhase.step]⟩
        · exact ⟨endedAt, by simpa [RecordPhase.step, hmarked] using hphase⟩
      · rcases horder with hrunning | ⟨endedAt', hended⟩
        · simp [hrunning]
        · simp [hended]
  | cleanup olderThan =>
    refine iff_of_true ⟨?_, trivial⟩ trivial
    intro correlationId successful endedAt hphase
    rw [hphase]
    by_cases hold : endedAt < now - olderThan
    · exact Or.inr ⟨⟨olderThan, rfl⟩, by simp [RecordPhase.step, hold]⟩
    · exact Or.inl ⟨endedAt, by simp [RecordPhase.step, hold]⟩
  | recoverStale events markedAt threshold =>
    refine iff_of_true ⟨?_, ?_⟩ trivial
    · intro correlationId successful endedAt hphase
      exact Or.inl ⟨endedAt, hphase⟩
    · intro key
      have hwritten := storeAfter_engineWritten isoformat history
      rw [hwritten.recoverStale events markedAt now threshold]
      split <;> simp

end

def KeepsTerminalRecords (isoformat : IsoFormat)
    (history : List (ℚ × PersistenceCall E)) : Prop :=
  AtEach (fun front entry =>
    KeepsTerminal isoformat (storeAfter isoformat front) entry) history

/-- The terminal records are kept exactly when every call comes in order. -/
theorem keepsTerminalRecords_iff (isoformat : IsoFormat)
    (history : List (ℚ × PersistenceCall E)) :
    KeepsTerminalRecords isoformat history ↔ AtEach InOrderCall history :=
  AtEach.iff_of_at fun front entry _ _ =>
    keepsTerminal_iff isoformat front entry

def compositionHistory : List (ℚ × PersistenceCall Unit) :=
  let env : Saga.Environment ℕ Unit Unit :=
    { Saga.Environment.obliging () () with
      persistence := some quietPersistence }
  let request : Saga.SagaRequest :=
    ⟨"composition-1", Dict.empty, .strictSequential⟩
  let schedule := [.main 0, .task 0, .task 0, .main 0, .task 1, .task 1,
    .main 0]
  let calls := sagaCalls Saga.chainSaga request 0
    (Saga.executeSaga Saga.chainSaga env request schedule).trace
  (calls ++ calls).map fun call => (0, call)

/-- The second saga sets the completed record back to in flight. -/
theorem not_keepsTerminalRecords_composition :
    ¬ KeepsTerminalRecords (fun _ => "2026-01-01T00:00:00+00:00")
      compositionHistory := by
  intro hkeeps
  have hstart := hkeeps [(0, .persistSaga Saga.chainSaga.name "composition-1" Dict.empty 0),
      (0, .markCompleted "composition-1" true)]
    (0, .persistSaga Saga.chainSaga.name "composition-1" Dict.empty 0)
    [(0, .markCompleted "composition-1" true)] rfl
  exact (keepsTerminal_iff _ _ _).mp hstart true 0 rfl

end PyFly.Transactional
