import PyFly.TccPhases

/-!
# What a TCC guarantees

The calls of the three phases are read off the course of `execute`.  Its
contract holds for every outcome of every attempt; the two laws about CONFIRM
fail exactly where the CANCEL phase is handed participants it should spare.
-/

namespace PyFly.Tcc

open Library Transactional List

variable {ι V E : Type} [DecidableEq ι]

section Traces

variable {env : TccEnvironment ι V E} {start : TccContext ι V}
variable {inputData : Option V} {phase phase' : TccPhase} {participant : ι}

theorem phaseQueries_tries (pDef : ParticipantDefinition ι) (ctx : TccContext ι V) :
    TccRun.Tries env phase pDef (TccRun.timeoutMs phase pDef)
      (env.buildCoro phase pDef ctx inputData) 1
      (TccRun.maxRetries phase pDef - 1)
      (phaseQueries env phase pDef ctx inputData)
      (phaseOutcome env phase pDef ctx inputData) :=
  TccRun.attempts_tries 1 _ _

variable {pDefs : List (ParticipantDefinition ι)}

theorem returned_phase {ctx : ParticipantDefinition ι → TccContext ι V} :
    Returned env phase' participant (pDefs.flatMap fun pDef =>
        phaseQueries env phase pDef (ctx pDef) inputData) ↔
      phase' = phase ∧ ∃ pDef ∈ pDefs, pDef.id = participant ∧
        ∃ value, phaseOutcome env phase pDef (ctx pDef) inputData = .ok value := by
  rw [returned_flatMap]
  constructor
  · intro h
    obtain ⟨pDef, hmem, hreturned⟩ := h
    obtain ⟨hphase, hid, hvalue⟩ :=
      (phaseQueries_tries pDef (ctx pDef)).returned_iff.mp hreturned
    exact ⟨hphase, pDef, hmem, hid.symm, hvalue⟩
  · intro h
    obtain ⟨hphase, pDef, hmem, hid, hvalue⟩ := h
    exact ⟨pDef, hmem, (phaseQueries_tries pDef (ctx pDef)).returned_iff.mpr
      ⟨hphase, hid.symm, hvalue⟩⟩

theorem called_phase {ctx : ParticipantDefinition ι → TccContext ι V} :
    Called phase' participant (pDefs.flatMap fun pDef =>
        phaseQueries env phase pDef (ctx pDef) inputData) ↔
      phase' = phase ∧ ∃ pDef ∈ pDefs, pDef.id = participant ∧
        ∃ kwargs, env.buildCoro phase pDef (ctx pDef) inputData = .ok kwargs := by
  rw [called_flatMap]
  constructor
  · intro h
    obtain ⟨pDef, hmem, hcalled⟩ := h
    obtain ⟨hphase, hid, hkwargs⟩ :=
      (phaseQueries_tries pDef (ctx pDef)).called_iff.mp hcalled
    exact ⟨hphase, pDef, hmem, hid.symm, hkwargs⟩
  · intro h
    obtain ⟨hphase, pDef, hmem, hid, hkwargs⟩ := h
    exact ⟨pDef, hmem, (phaseQueries_tries pDef (ctx pDef)).called_iff.mpr
      ⟨hphase, hid.symm, hkwargs⟩⟩

theorem phaseCalls_phase_of_ne (hne : phase' ≠ phase) (pDefs : List (ParticipantDefinition ι))
    (ctx : ParticipantDefinition ι → TccContext ι V) :
    phaseCalls phase' (pDefs.flatMap fun pDef =>
      phaseQueries env phase pDef (ctx pDef) inputData) = [] := by
  rw [phaseCalls_flatMap]
  apply flatMap_eq_nil_iff.mpr
  intro pDef _
  exact (phaseQueries_tries pDef (ctx pDef)).phaseCalls_of_ne hne

def RunsThrough (pDefs : List (ParticipantDefinition ι)) (calls : List ι) :
    Prop :=
  ∃ count : ParticipantDefinition ι → ℕ, (∀ pDef ∈ pDefs, 1 ≤ count pDef) ∧
    calls = pDefs.flatMap fun pDef => List.replicate (count pDef) pDef.id

theorem runsThrough_phase (pDefs : List (ParticipantDefinition ι))
    (ctx : ParticipantDefinition ι → TccContext ι V) :
    RunsThrough pDefs (phaseCalls phase (pDefs.flatMap fun pDef =>
      phaseQueries env phase pDef (ctx pDef) inputData)) := by
  refine ⟨fun pDef => (phaseCalls phase
    (phaseQueries env phase pDef (ctx pDef) inputData)).length, ?_, ?_⟩
  · intro pDef _
    obtain ⟨count, hpositive, _, hcalls⟩ :=
      (@phaseQueries_tries _ V E _ env inputData phase pDef (ctx pDef)).phaseCalls_self
    dsimp only
    rw [hcalls, length_replicate]
    exact hpositive
  · rw [phaseCalls_flatMap]
    congr 1
    funext pDef
    obtain ⟨count, _, _, hcalls⟩ :=
      (@phaseQueries_tries _ V E _ env inputData phase pDef (ctx pDef)).phaseCalls_self
    dsimp only
    rw [hcalls, length_replicate]

omit [DecidableEq ι] in
theorem RunsThrough.mem {calls : List ι} (h : RunsThrough pDefs calls)
    (hmem : participant ∈ calls) :
    ∃ pDef ∈ pDefs, pDef.id = participant := by
  obtain ⟨count, _, hcalls⟩ := h
  rw [hcalls] at hmem
  obtain ⟨pDef, hpDef, hreplicate⟩ := mem_flatMap.mp hmem
  exact ⟨pDef, hpDef, (eq_of_mem_replicate hreplicate).symm⟩

end Traces

section Contract

variable {env : TccEnvironment ι V E} {tccDef : TccDefinition ι}
variable {start : TccContext ι V} {inputData : Option V}

structure LaterPhases (env : TccEnvironment ι V E)
    (tccDef : TccDefinition ι) (start : TccContext ι V)
    (inputData : Option V) (later : List (TccQuery ι V E)) : Prop where
  noTry : phaseCalls .tryPhase later = []
  noTryReturned : ∀ participant, ¬ Returned env .tryPhase participant later
  onlyTried : ∀ phase participant, participant ∈ phaseCalls phase later →
    ∃ pDef ∈ triedParticipants env tccDef start inputData, pDef.id = participant

theorem laterPhases_nil : LaterPhases env tccDef start inputData [] where
  noTry := rfl
  noTryReturned := by
    intro participant h
    obtain ⟨_, _, _, _, hmem, _⟩ := h
    cases hmem
  onlyTried := by
    intro phase participant hmem
    cases hmem

theorem LaterPhases.append {first second : List (TccQuery ι V E)}
    (hfirst : LaterPhases env tccDef start inputData first)
    (hsecond : LaterPhases env tccDef start inputData second) :
    LaterPhases env tccDef start inputData (first ++ second) where
  noTry := by
    rw [phaseCalls_append, hfirst.noTry, hsecond.noTry, append_nil]
  noTryReturned := by
    intro participant h
    rcases returned_append.mp h with h | h
    · exact hfirst.noTryReturned participant h
    · exact hsecond.noTryReturned participant h
  onlyTried := by
    intro phase participant hmem
    rw [phaseCalls_append] at hmem
    rcases mem_append.mp hmem with hmem | hmem
    · exact hfirst.onlyTried phase participant hmem
    · exact hsecond.onlyTried phase participant hmem

theorem laterPhases_phase {phase : TccPhase} (hphase : phase ≠ .tryPhase)
    {pDefs : List (ParticipantDefinition ι)}
    (hsub : ∀ pDef ∈ pDefs, pDef ∈ triedParticipants env tccDef start inputData)
    {ctx : ParticipantDefinition ι → TccContext ι V} {input : Option V} :
    LaterPhases env tccDef start inputData (pDefs.flatMap fun pDef =>
      phaseQueries env phase pDef (ctx pDef) input) where
  noTry := phaseCalls_phase_of_ne (fun heq => hphase heq.symm) pDefs ctx
  noTryReturned := by
    intro participant h
    exact hphase (returned_phase.mp h).1.symm
  onlyTried := by
    intro phase' participant hmem
    by_cases hsame : phase' = phase
    · rw [hsame] at hmem
      obtain ⟨pDef, hpDef, hid⟩ := (runsThrough_phase pDefs ctx).mem hmem
      exact ⟨pDef, hsub pDef hpDef, hid⟩
    · rw [phaseCalls_phase_of_ne hsame] at hmem
      cases hmem

theorem laterPhases_confirmTrace :
    LaterPhases env tccDef start inputData (confirmTrace env start inputData
      (triedParticipants env tccDef start inputData)) :=
  laterPhases_phase (by decide) fun _ hmem => mem_of_mem_takeThrough hmem

theorem laterPhases_cancelTrace :
    LaterPhases env tccDef start inputData (cancelTrace env start inputData
      (triedParticipants env tccDef start inputData)) :=
  laterPhases_phase (by decide) fun _ hmem =>
    mem_reverse.mp (mem_filter.mp (mem_of_mem_takeThrough hmem)).1

variable {trace : List (TccQuery ι V E)}
  {result : Except (Fault E) (TccContext ι V × Except E (Bool × Option ι))}

theorem Course.split (h : Course env tccDef start inputData trace result) :
    ∃ later, trace = tryTrace env start inputData tccDef.participantList ++
        later ∧ LaterPhases env tccDef start inputData later := by
  cases h with
  | tryInterrupted pDef hfind hcancelled =>
    exact ⟨[], (append_nil _).symm, laterPhases_nil⟩
  | tryFailed pDef error hfind hfailed =>
    exact ⟨_, rfl, laterPhases_cancelTrace⟩
  | confirmInterrupted pDef htried hfind hcancelled =>
    exact ⟨_, rfl, laterPhases_confirmTrace⟩
  | confirmFailed pDef error htried hfind hfailed =>
    exact ⟨_, rfl, laterPhases_confirmTrace.append laterPhases_cancelTrace⟩
  | committed htried hconfirmed =>
    exact ⟨_, rfl, laterPhases_confirmTrace⟩

variable {pDef : ParticipantDefinition ι}

theorem tryOutcome_ok_iff : (tryOutcome env start inputData pDef).isOk = true ↔
      ∃ value, tryOutcome env start inputData pDef = .ok value := by
  cases tryOutcome env start inputData pDef <;> simp [Except.isOk, Except.toBool]

theorem confirmOutcome_ok_iff : confirmStops env start inputData pDef = false ↔
      ∃ value, confirmOutcome env start inputData pDef = .ok value := by
  unfold confirmStops
  cases confirmOutcome env start inputData pDef <;> simp [Except.isOk, Except.toBool]

theorem returned_tryTrace (hmem : pDef ∈ tccDef.participantList) :
    Returned env .tryPhase pDef.id (tryTrace env start inputData tccDef.participantList) ↔
      pDef ∈ triedParticipants env tccDef start inputData := by
  unfold tryTrace
  rw [returned_phase]
  constructor
  · intro h
    obtain ⟨_, other, hother, hid, hok⟩ := h
    have hsame : other = pDef :=
      inj_on_of_nodup_map tccDef.nodup_ids (mem_of_mem_takeThrough hother) hmem hid
    rw [hsame] at hother hok
    rw [takeThrough_eq_append] at hother
    apply mem_filter.mpr
    refine ⟨?_, tryOutcome_ok_iff.mpr hok⟩
    rcases mem_append.mp hother with hreached | hstop
    · exact hreached
    · have hfind := Option.mem_toList.mp hstop
      have hstops := List.find?_some (Option.mem_def.mp hfind)
      obtain ⟨value, hvalue⟩ := hok
      have hvalue' : tryOutcome env start inputData pDef = .ok value := hvalue
      simp [tryStops, hvalue'] at hstops
  · intro htried
    obtain ⟨hreached, hok⟩ := mem_filter.mp htried
    refine ⟨rfl, pDef, ?_, rfl, tryOutcome_ok_iff.mp hok⟩
    rw [takeThrough_eq_append]
    exact mem_append_left _ hreached

theorem Course.returned_try {trace : List (TccQuery ι V E)}
    {result : Except (Fault E) (TccContext ι V × Except E (Bool × Option ι))}
    (h : Course env tccDef start inputData trace result)
    {pDef : ParticipantDefinition ι}
    (hmem : pDef ∈ tccDef.participantList) :
    Returned env .tryPhase pDef.id trace ↔
      pDef ∈ triedParticipants env tccDef start inputData := by
  obtain ⟨later, htrace, hlater⟩ := h.split
  rw [htrace, returned_append, returned_tryTrace hmem]
  constructor
  · intro h
    rcases h with h | h
    · exact h
    · exact absurd h (hlater.noTryReturned _)
  · exact Or.inl

/-! ## The contract of the three phases -/

structure ThreePhases (env : TccEnvironment ι V E)
    (tccDef : TccDefinition ι) (trace : List (TccQuery ι V E))
    (result : Except (Fault E) (TccContext ι V × Except E (Bool × Option ι))) : Prop where
  /-- TRY runs in participant order and stops at the first participant which
  fails and is not optional. -/
  tryOrder : ∃ attempted, attempted <+: tccDef.participantList ∧
    RunsThrough attempted (phaseCalls .tryPhase trace) ∧
    (∀ pDef ∈ attempted, pDef.optional = false → ¬ Returned env .tryPhase pDef.id trace →
      attempted.getLast? = some pDef) ∧
    ∀ ctx pair, result = .ok (ctx, pair) → attempted = tccDef.participantList ∨
        ∃ pDef, attempted.getLast? = some pDef ∧ pDef.optional = false ∧
          ¬ Returned env .tryPhase pDef.id trace
  /-- `execute` returns `(True, None)` or `(False, id)`. -/
  pairs : ∀ ctx pair, result = .ok (ctx, pair) →
    pair = .ok (true, none) ∨ ∃ failed, pair = .ok (false, some failed)
  committed : ∀ ctx, result = .ok (ctx, .ok (true, none)) →
    phaseCalls .cancel trace = [] ∧ ∀ pDef ∈ tccDef.participantList,
        Returned env .tryPhase pDef.id trace → Returned env .confirm pDef.id trace
  cancelled : ∀ ctx failed, result = .ok (ctx, .ok (false, some failed)) →
    ∃ tried, List.Sublist tried tccDef.participantList ∧ (∀ pDef ∈ tccDef.participantList,
        pDef ∈ tried ↔ Returned env .tryPhase pDef.id trace) ∧
      RunsThrough (tried.reverse.filter fun pDef => pDef.cancelMethod.isSome)
        (phaseCalls .cancel trace)
  spared : ∀ pDef ∈ tccDef.participantList, ¬ Returned env .tryPhase pDef.id trace →
      pDef.id ∉ phaseCalls .confirm trace ∧ pDef.id ∉ phaseCalls .cancel trace

theorem tryStops_of_failed (hoptional : pDef.optional = false)
    (hfailed : ∀ value, tryOutcome env start inputData pDef ≠ .ok value) :
    tryStops env start inputData pDef = true := by
  unfold tryStops
  cases houtcome : tryOutcome env start inputData pDef with
  | ok value => exact absurd houtcome (hfailed value)
  | error fault => cases fault <;> simp [hoptional]

theorem getLast?_takeThrough {α : Type} {stop : α → Bool} {items : List α}
    {item : α} (hfind : items.find? stop = some item) :
    (takeThrough stop items).getLast? = some item := by
  rw [takeThrough_eq_append, hfind]
  simp

theorem Course.tryOrder (h : Course env tccDef start inputData trace result) :
    ∃ attempted, attempted <+: tccDef.participantList ∧
      RunsThrough attempted (phaseCalls .tryPhase trace) ∧
      (∀ pDef ∈ attempted, pDef.optional = false → ¬ Returned env .tryPhase pDef.id trace →
        attempted.getLast? = some pDef) ∧
      ∀ ctx pair, result = .ok (ctx, pair) → attempted = tccDef.participantList ∨
          ∃ pDef, attempted.getLast? = some pDef ∧ pDef.optional = false ∧
            ¬ Returned env .tryPhase pDef.id trace := by
  have hreturned := fun pDef hmem => @Course.returned_try _ V E _ env tccDef
    start inputData trace result h pDef hmem
  obtain ⟨later, htrace, hlater⟩ := h.split
  refine ⟨takeThrough (tryStops env start inputData) tccDef.participantList,
    takeThrough_initial _, ?_, ?_, ?_⟩
  · rw [htrace, phaseCalls_append, hlater.noTry, append_nil]
    exact runsThrough_phase _ _
  · intro pDef hmem hoptional hfailed
    have hlist := mem_of_mem_takeThrough hmem
    obtain ⟨before, after, hsplit, hgo⟩ := mem_takeThrough_iff.mp hmem
    have hstop : tryStops env start inputData pDef = true := by
      apply tryStops_of_failed hoptional
      intro value hvalue
      apply hfailed
      rw [hreturned pDef hlist]
      apply mem_filter.mpr
      refine ⟨?_, tryOutcome_ok_iff.mpr ⟨value, hvalue⟩⟩
      rw [takeThrough_eq_append] at hmem
      rcases mem_append.mp hmem with hreached | hlast
      · exact hreached
      · have hstops := List.find?_some (Option.mem_toList.mp hlast)
        simp [tryStops, hvalue] at hstops
    apply getLast?_takeThrough
    rw [hsplit, List.find?_append, List.find?_cons_of_pos hstop]
    have hnone : before.find? (tryStops env start inputData) = none := by
      apply List.find?_eq_none.mpr
      intro other hother
      simp [hgo other hother]
    rw [hnone]
    rfl
  · intro ctx pair hresult
    cases hfind : tccDef.participantList.find? (tryStops env start inputData) with
    | none => exact Or.inl (takeThrough_of_find?_none hfind)
    | some pDef =>
      right
      have hlist : pDef ∈ tccDef.participantList :=
        mem_of_find?_eq_some hfind
      have hfailed : ∃ error, tryOutcome env start inputData pDef =
          .error (.exception error) := by
        cases h with
        | tryInterrupted other hother hcancelled => cases hresult
        | tryFailed other error hother hfailed =>
          cases hfind.symm.trans hother
          exact ⟨error, hfailed⟩
        | confirmInterrupted other htried hother hcancelled =>
          cases hfind.symm.trans htried
        | confirmFailed other error htried hother hfailed =>
          cases hfind.symm.trans htried
        | committed htried hconfirmed => cases hfind.symm.trans htried
      obtain ⟨error, hfailed⟩ := hfailed
      refine ⟨pDef, getLast?_takeThrough hfind, ?_, ?_⟩
      · have hstops := List.find?_some hfind
        simpa [tryStops, hfailed] using hstops
      · rw [hreturned pDef hlist]
        intro htried
        obtain ⟨value, hvalue⟩ := tryOutcome_of_mem_triedOf htried
        rw [hfailed] at hvalue
        cases hvalue

theorem runsThrough_cancelTrace (hnone : (cancellable (triedParticipants env tccDef start
      inputData)).find? (cancelStops env start inputData) = none) :
    RunsThrough ((triedParticipants env tccDef start inputData).reverse.filter
        fun pDef => pDef.cancelMethod.isSome)
      (phaseCalls .cancel (cancelTrace env start inputData
        (triedParticipants env tccDef start inputData))) := by
  unfold cancelTrace
  rw [takeThrough_of_find?_none hnone]
  exact runsThrough_phase _ _

variable {ctx : TccContext ι V}

theorem cancelEnd_eq_ok {ctx' : TccContext ι V} {failed : ι} {pair : Except E (Bool × Option ι)}
    (h : cancelEnd env tccDef start inputData ctx failed = .ok (ctx', pair)) :
    pair = .ok (false, some failed) ∧
      (cancellable (triedParticipants env tccDef start inputData)).find?
        (cancelStops env start inputData) = none := by
  unfold cancelEnd at h
  cases hfind : (cancellable (triedParticipants env tccDef start
      inputData)).find? (cancelStops env start inputData) with
  | some pDef =>
    rw [hfind] at h
    cases h
  | none =>
    rw [hfind] at h
    cases h
    exact ⟨rfl, rfl⟩

theorem Course.ne_exception (h : Course env tccDef start inputData trace result) (error : E) :
    result ≠ .error (.exception error) := by
  intro hresult
  have hcancelEnd : ∀ (ctx : TccContext ι V) (failed : ι),
      cancelEnd env tccDef start inputData ctx failed ≠ .error (.exception error) := by
    intro ctx failed hend
    unfold cancelEnd at hend
    split at hend <;> cases hend
  cases h with
  | tryInterrupted pDef hfind hcancelled => cases hresult
  | tryFailed pDef error' hfind hfailed => exact hcancelEnd _ _ hresult
  | confirmInterrupted pDef htried hfind hcancelled => cases hresult
  | confirmFailed pDef error' htried hfind hfailed =>
    exact hcancelEnd _ _ hresult
  | committed htried hconfirmed => cases hresult

theorem phaseCalls_cancel_try : phaseCalls .cancel
      (tryTrace env start inputData tccDef.participantList) = [] :=
  phaseCalls_phase_of_ne (by decide) _ _

theorem phaseCalls_cancel_confirm (tried : List (ParticipantDefinition ι)) :
    phaseCalls .cancel (confirmTrace env start inputData tried) = [] :=
  phaseCalls_phase_of_ne (by decide) _ _

theorem Course.of_succeeded {failed : Option ι}
    (h : Course env tccDef start inputData trace (.ok (ctx, .ok (true, failed)))) :
    ∀ pDef ∈ tccDef.participantList, tryStops env start inputData pDef = false ∧
        ((∃ value, tryOutcome env start inputData pDef = .ok value) →
          ∃ value, confirmOutcome env start inputData pDef = .ok value) := by
  generalize hresult : (.ok (ctx, .ok (true, failed)) : Except (Fault E)
    (TccContext ι V × Except E (Bool × Option ι))) = result at h
  cases h with
  | tryInterrupted pDef hfind hcancelled => cases hresult
  | tryFailed pDef error hfind hfailed =>
    cases (cancelEnd_eq_ok hresult.symm).1
  | confirmInterrupted pDef htried hfind hcancelled => cases hresult
  | confirmFailed pDef error htried hfind hfailed =>
    cases (cancelEnd_eq_ok hresult.symm).1
  | committed htried hconfirmed =>
    intro pDef hmem
    constructor
    · simpa using List.find?_eq_none.mp htried pDef hmem
    · intro hok
      have htriedMem : pDef ∈ triedParticipants env tccDef start inputData := by
        unfold triedParticipants triedOf
        rw [takeWhile_of_find?_none htried]
        exact mem_filter.mpr ⟨hmem, tryOutcome_ok_iff.mpr hok⟩
      apply confirmOutcome_ok_iff.mp
      simpa using List.find?_eq_none.mp hconfirmed pDef htriedMem

theorem Course.committed_of_go (h : Course env tccDef start inputData trace result)
    (hgo : ∀ pDef ∈ tccDef.participantList, tryStops env start inputData pDef = false ∧
        ((∃ value, tryOutcome env start inputData pDef = .ok value) →
          ∃ value, confirmOutcome env start inputData pDef = .ok value)) :
    (∃ ctx, result = .ok (ctx, .ok (true, none))) ∧ phaseCalls .cancel trace = [] := by
  have hnotTry : ∀ {pDef : ParticipantDefinition ι},
      tccDef.participantList.find? (tryStops env start inputData) ≠ some pDef := by
    intro pDef hfind
    have hstops := List.find?_some hfind
    rw [(hgo pDef (mem_of_find?_eq_some hfind)).1] at hstops
    cases hstops
  have hnotConfirm : ∀ {pDef : ParticipantDefinition ι},
      (triedParticipants env tccDef start inputData).find?
        (confirmStops env start inputData) ≠ some pDef := by
    intro pDef hfind
    have hmem := mem_of_find?_eq_some hfind
    have hstops := List.find?_some hfind
    rw [confirmOutcome_ok_iff.mpr ((hgo pDef ((triedOf_sublist _).subset hmem)).2
        (tryOutcome_of_mem_triedOf hmem))] at hstops
    cases hstops
  cases h with
  | tryInterrupted pDef hfind hcancelled => exact absurd hfind hnotTry
  | tryFailed pDef error hfind hfailed => exact absurd hfind hnotTry
  | confirmInterrupted pDef htried hfind hcancelled =>
    exact absurd hfind hnotConfirm
  | confirmFailed pDef error htried hfind hfailed =>
    exact absurd hfind hnotConfirm
  | committed htried hconfirmed =>
    refine ⟨⟨_, rfl⟩, ?_⟩
    rw [phaseCalls_append, phaseCalls_cancel_try, phaseCalls_cancel_confirm, append_nil]

theorem Course.threePhases (h : Course env tccDef start inputData trace result) :
    ThreePhases env tccDef trace result where
  tryOrder := h.tryOrder
  pairs := by
    intro ctx pair hresult
    cases h with
    | tryInterrupted pDef hfind hcancelled => cases hresult
    | tryFailed pDef error hfind hfailed =>
      exact Or.inr ⟨_, (cancelEnd_eq_ok hresult).1⟩
    | confirmInterrupted pDef htried hfind hcancelled => cases hresult
    | confirmFailed pDef error htried hfind hfailed =>
      exact Or.inr ⟨_, (cancelEnd_eq_ok hresult).1⟩
    | committed htried hconfirmed =>
      cases hresult
      exact Or.inl rfl
  committed := by
    intro ctx hresult
    have hreturned := fun pDef hmem => @Course.returned_try _ V E _ env
      tccDef start inputData trace result h pDef hmem
    cases h with
    | tryInterrupted pDef hfind hcancelled => cases hresult
    | tryFailed pDef error hfind hfailed =>
      cases (cancelEnd_eq_ok hresult).1
    | confirmInterrupted pDef htried hfind hcancelled => cases hresult
    | confirmFailed pDef error htried hfind hfailed =>
      cases (cancelEnd_eq_ok hresult).1
    | committed htried hconfirmed =>
      constructor
      · rw [phaseCalls_append, phaseCalls_cancel_try, phaseCalls_cancel_confirm, append_nil]
      · intro pDef hmem htry
        have htriedMem := (hreturned pDef hmem).mp htry
        apply returned_append.mpr
        right
        unfold confirmTrace
        rw [takeThrough_of_find?_none hconfirmed, returned_phase]
        have hgo : confirmStops env start inputData pDef = false := by
          simpa using List.find?_eq_none.mp hconfirmed pDef htriedMem
        exact ⟨rfl, pDef, htriedMem, rfl, confirmOutcome_ok_iff.mp hgo⟩
  cancelled := by
    intro ctx failed hresult
    have hreturned := fun pDef hmem => @Course.returned_try _ V E _ env
      tccDef start inputData trace result h pDef hmem
    refine ⟨triedParticipants env tccDef start inputData,
      triedOf_sublist _, fun pDef hmem => (hreturned pDef hmem).symm, ?_⟩
    cases h with
    | tryInterrupted pDef hfind hcancelled => cases hresult
    | tryFailed pDef error hfind hfailed =>
      rw [phaseCalls_append, phaseCalls_cancel_try, nil_append]
      exact runsThrough_cancelTrace (cancelEnd_eq_ok hresult).2
    | confirmInterrupted pDef htried hfind hcancelled => cases hresult
    | confirmFailed pDef error htried hfind hfailed =>
      rw [phaseCalls_append, phaseCalls_append, phaseCalls_cancel_try,
        phaseCalls_cancel_confirm, nil_append, nil_append]
      exact runsThrough_cancelTrace (cancelEnd_eq_ok hresult).2
    | committed htried hconfirmed => cases hresult
  spared := by
    intro pDef hmem hfailed
    have hreturned := fun pDef hmem => @Course.returned_try _ V E _ env
      tccDef start inputData trace result h pDef hmem
    obtain ⟨later, htrace, hlater⟩ := h.split
    have hnotTried : ∀ phase, pDef.id ∉ phaseCalls phase later := by
      intro phase hcall
      obtain ⟨other, hother, hid⟩ := hlater.onlyTried phase _ hcall
      have hsame : other = pDef :=
        inj_on_of_nodup_map tccDef.nodup_ids ((triedOf_sublist _).subset hother) hmem hid
      exact hfailed ((hreturned pDef hmem).mpr (hsame ▸ hother))
    have hconfirm : phaseCalls .confirm
        (tryTrace env start inputData tccDef.participantList) = [] :=
      phaseCalls_phase_of_ne (by decide) _ _
    rw [htrace, phaseCalls_append, phaseCalls_append, phaseCalls_cancel_try, hconfirm]
    exact ⟨hnotTried .confirm, hnotTried .cancel⟩

def ConfirmedStays (env : TccEnvironment ι V E) (trace : List (TccQuery ι V E)) : Prop :=
  ∀ participant, Returned env .confirm participant trace → ¬ Called .cancel participant trace

/-- All TRYs go through, and a CONFIRM raises after that of a participant
whose cancel method can be called; the CANCEL phase gets back to it without
being cancelled itself. -/
def CancelsConfirmed (env : TccEnvironment ι V E)
    (tccDef : TccDefinition ι) (start : TccContext ι V)
    (inputData : Option V) : Prop :=
  (∀ pDef ∈ tccDef.participantList, tryStops env start inputData pDef = false) ∧
  ∃ before confirmed between failed after error kwargs,
    triedParticipants env tccDef start inputData =
      before ++ confirmed :: (between ++ failed :: after) ∧
    (∀ pDef ∈ before ++ confirmed :: between, ∃ value,
      confirmOutcome env start inputData pDef = .ok value) ∧
    confirmOutcome env start inputData failed = .error (.exception error) ∧
    env.invokeCancel confirmed (reserve env start inputData start confirmed) = .ok kwargs ∧
    ∀ pDef ∈ between ++ failed :: after, pDef.cancelMethod.isSome →
      cancelOutcome env start inputData pDef ≠ .error .cancelled

theorem isSome_of_invokeCancel {kwargs : Dict String (Argument V)}
    (h : env.invokeCancel pDef ctx = .ok kwargs) :
    pDef.cancelMethod.isSome := by
  unfold TccEnvironment.invokeCancel TccEnvironment.preparePhase at h
  cases hmethod : pDef.cancelMethod with
  | none =>
    simp [ParticipantDefinition.phaseMethod, hmethod] at h
  | some method => rfl

theorem cancelStops_eq_false_iff : cancelStops env start inputData pDef = false ↔
      cancelOutcome env start inputData pDef ≠ .error .cancelled := by
  unfold cancelStops
  cases cancelOutcome env start inputData pDef with
  | ok value => simp [TccReply.isCancelled]
  | error fault => cases fault <;> simp [TccReply.isCancelled]

omit [DecidableEq ι] in
theorem cancellable_append (first second : List (ParticipantDefinition ι)) :
    cancellable (first ++ second) = cancellable second ++ cancellable first := by
  simp [cancellable]

theorem called_cancelTrace (hmem : pDef ∈ triedParticipants env tccDef start inputData) :
    Called .cancel pDef.id (cancelTrace env start inputData
        (triedParticipants env tccDef start inputData)) ↔
      pDef ∈ takeThrough (cancelStops env start inputData)
          (cancellable (triedParticipants env tccDef start inputData)) ∧
        ∃ kwargs, env.invokeCancel pDef
          (reserve env start inputData start pDef) = .ok kwargs := by
  unfold cancelTrace
  rw [called_phase]
  constructor
  · intro h
    obtain ⟨_, other, hother, hid, hkwargs⟩ := h
    have htried : other ∈ triedParticipants env tccDef start inputData :=
      mem_reverse.mp (mem_filter.mp (mem_of_mem_takeThrough hother)).1
    have hsame : other = pDef :=
      inj_on_of_nodup_map tccDef.nodup_ids ((triedOf_sublist _).subset htried)
        ((triedOf_sublist _).subset hmem) hid
    rw [hsame] at hother hkwargs
    exact ⟨hother, hkwargs⟩
  · intro h
    exact ⟨rfl, pDef, h.1, rfl, h.2⟩

variable {tried : List (ParticipantDefinition ι)}

theorem mem_cancelled_iff {before rest : List (ParticipantDefinition ι)}
    (hnodup : tried.Nodup) (hsplit : tried = before ++ pDef :: rest)
    (hmethod : pDef.cancelMethod.isSome) :
    pDef ∈ takeThrough (cancelStops env start inputData) (cancellable tried) ↔
      ∀ other ∈ rest, other.cancelMethod.isSome →
        cancelOutcome env start inputData other ≠ .error .cancelled := by
  have horder : cancellable tried = cancellable rest ++ pDef :: cancellable before := by
    rw [hsplit, append_cons, cancellable_append, cancellable_append]
    simp [cancellable, hmethod]
  have hnodup' : (cancellable rest ++ pDef :: cancellable before).Nodup := by
    rw [← horder]
    exact (nodup_reverse.mpr hnodup).filter _
  have hnotMem : pDef ∉ cancellable rest := by
    intro hmem
    exact (nodup_append.mp hnodup').2.2 pDef hmem pDef mem_cons_self rfl
  have hnotMem' : pDef ∉ cancellable before :=
    (nodup_cons.mp (nodup_append.mp hnodup').2.1).1
  have hmemRest : ∀ other, other ∈ cancellable rest ↔
      other ∈ rest ∧ other.cancelMethod.isSome := by
    intro other
    simp [cancellable]
  rw [mem_takeThrough_iff, horder]
  constructor
  · intro h other hother hsome
    obtain ⟨earlier, later, hsame, hgo⟩ := h
    have hearlier := (append_cons_inj_of_notMem hnotMem hnotMem').mp hsame
    apply cancelStops_eq_false_iff.mp
    apply hgo
    rw [← hearlier.1]
    exact (hmemRest other).mpr ⟨hother, hsome⟩
  · intro h
    refine ⟨cancellable rest, cancellable before, rfl, ?_⟩
    intro other hother
    obtain ⟨hrest, hsome⟩ := (hmemRest other).mp hother
    exact cancelStops_eq_false_iff.mpr (h other hrest hsome)

theorem nodup_tried : (triedParticipants env tccDef start inputData).Nodup :=
  (List.Nodup.of_map _ tccDef.nodup_ids).sublist (triedOf_sublist _)

theorem not_returned_confirm_try {participant : ι} : ¬ Returned env .confirm participant
      (tryTrace env start inputData tccDef.participantList) := by
  intro h
  cases (returned_phase.mp h).1

theorem not_returned_confirm_cancel {participant : ι} :
    ¬ Returned env .confirm participant (cancelTrace env start inputData tried) := by
  intro h
  cases (returned_phase.mp h).1

theorem not_called_cancel_try {participant : ι} : ¬ Called .cancel participant
      (tryTrace env start inputData tccDef.participantList) := by
  intro h
  cases (called_phase.mp h).1

theorem not_called_cancel_confirm {participant : ι} :
    ¬ Called .cancel participant (confirmTrace env start inputData tried) := by
  intro h
  cases (called_phase.mp h).1

theorem Course.confirmedStays_iff (h : Course env tccDef start inputData trace result) :
    ConfirmedStays env trace ↔ ¬ CancelsConfirmed env tccDef start inputData := by
  have hnotFind : ∀ {pDef : ParticipantDefinition ι},
      tccDef.participantList.find? (tryStops env start inputData) =
        some pDef → ¬ CancelsConfirmed env tccDef start inputData := by
    intro pDef hfind hcancels
    have hgo := hcancels.1 pDef (mem_of_find?_eq_some hfind)
    rw [List.find?_some hfind] at hgo
    cases hgo
  have hfirst : ∀ {before between after : List (ParticipantDefinition ι)}
      {confirmed failed : ParticipantDefinition ι},
      triedParticipants env tccDef start inputData =
        before ++ confirmed :: (between ++ failed :: after) →
      (∀ pDef ∈ before ++ confirmed :: between, ∃ value,
        confirmOutcome env start inputData pDef = .ok value) →
      confirmStops env start inputData failed = true →
      (triedParticipants env tccDef start inputData).find?
        (confirmStops env start inputData) = some failed := by
    intro before between after confirmed failed hsplit hok hstop
    have hsplit' : triedParticipants env tccDef start inputData =
        (before ++ confirmed :: between) ++ failed :: after := by
      rw [hsplit, append_assoc, cons_append]
    have hnone : (before ++ confirmed :: between).find?
        (confirmStops env start inputData) = none := by
      apply List.find?_eq_none.mpr
      intro pDef hmem
      simp [confirmOutcome_ok_iff.mpr (hok pDef hmem)]
    rw [hsplit', List.find?_append, hnone, List.find?_cons_of_pos hstop]
    rfl
  have hstops : ∀ {pDef : ParticipantDefinition ι} {fault : Fault E},
      confirmOutcome env start inputData pDef = .error fault →
      confirmStops env start inputData pDef = true := by
    intro pDef fault hfault
    simp [confirmStops, hfault, Except.isOk, Except.toBool]
  cases h with
  | tryInterrupted pDef hfind hcancelled =>
    refine iff_of_true ?_ (hnotFind hfind)
    intro participant hconfirm
    exact absurd hconfirm not_returned_confirm_try
  | tryFailed pDef error hfind hfailed =>
    refine iff_of_true ?_ (hnotFind hfind)
    intro participant hconfirm
    rcases returned_append.mp hconfirm with hconfirm | hconfirm
    · exact absurd hconfirm not_returned_confirm_try
    · exact absurd hconfirm not_returned_confirm_cancel
  | confirmInterrupted pDef htried hfind hcancelled =>
    refine iff_of_true ?_ ?_
    · intro participant _ hcall
      rcases called_append.mp hcall with hcall | hcall
      · exact not_called_cancel_try hcall
      · exact not_called_cancel_confirm hcall
    · intro hcancels
      obtain ⟨_, before, confirmed, between, failed, after, error, kwargs,
        hsplit, hok, hfailed, _, _⟩ := hcancels
      cases hfind.symm.trans (hfirst hsplit hok (hstops hfailed))
      rw [hcancelled] at hfailed
      cases hfailed
  | committed htried hconfirmed =>
    refine iff_of_true ?_ ?_
    · intro participant _ hcall
      rcases called_append.mp hcall with hcall | hcall
      · exact not_called_cancel_try hcall
      · exact not_called_cancel_confirm hcall
    · intro hcancels
      obtain ⟨_, before, confirmed, between, failed, after, error, kwargs,
        hsplit, hok, hfailed, _, _⟩ := hcancels
      cases hconfirmed.symm.trans (hfirst hsplit hok (hstops hfailed))
  | confirmFailed failed error htried hfind hfailed =>
    obtain ⟨after, hafter⟩ := find?_eq_some_split hfind
    rw [← not_iff_not, not_not]
    constructor
    · intro hbroken
      unfold ConfirmedStays at hbroken
      push Not at hbroken
      obtain ⟨participant, hconfirm, hcall⟩ := hbroken
      have hconfirm' : Returned env .confirm participant (confirmTrace env start inputData
            (triedParticipants env tccDef start inputData)) := by
        rcases returned_append.mp hconfirm with hconfirm | hconfirm
        · exact absurd hconfirm not_returned_confirm_try
        · rcases returned_append.mp hconfirm with hconfirm | hconfirm
          · exact hconfirm
          · exact absurd hconfirm not_returned_confirm_cancel
      have hcall' : Called .cancel participant (cancelTrace env start inputData
            (triedParticipants env tccDef start inputData)) := by
        rcases called_append.mp hcall with hcall | hcall
        · exact absurd hcall not_called_cancel_try
        · rcases called_append.mp hcall with hcall | hcall
          · exact absurd hcall not_called_cancel_confirm
          · exact hcall
      obtain ⟨_, pDef, hpDef, hid, value, hvalue⟩ :=
        returned_phase.mp hconfirm'
      have hconfirmed : pDef ∈ (triedParticipants env tccDef start inputData).takeWhile
            fun pDef => !confirmStops env start inputData pDef := by
        rw [takeThrough_eq_append, hfind] at hpDef
        rcases mem_append.mp hpDef with hreached | hlast
        · exact hreached
        · have hsame : pDef = failed := by simpa using hlast
          have hvalue' : confirmOutcome env start inputData pDef = .ok value := hvalue
          rw [hsame, hfailed] at hvalue'
          cases hvalue'
      obtain ⟨before, between, hsplit⟩ := append_of_mem hconfirmed
      have htriedSplit : triedParticipants env tccDef start inputData =
          before ++ pDef :: (between ++ failed :: after) := by
        rw [hafter, hsplit, append_assoc, cons_append]
      rw [← hid, called_cancelTrace (mem_of_mem_takeThrough hpDef)]
        at hcall'
      obtain ⟨hreach, kwargs, hkwargs⟩ := hcall'
      refine ⟨fun other hother => ?_, before, pDef, between, failed, after,
        error, kwargs, htriedSplit, ?_, hfailed, hkwargs, ?_⟩
      · simpa using List.find?_eq_none.mp htried other hother
      · intro other hother
        rw [← hsplit] at hother
        apply confirmOutcome_ok_iff.mp
        simpa using mem_takeWhile_imp hother
      · exact (mem_cancelled_iff nodup_tried htriedSplit
          (isSome_of_invokeCancel hkwargs)).mp hreach
    · intro hcancels hstays
      obtain ⟨_, before, confirmed, between, failed', after', error',
        kwargs, hsplit, hok, hfailed', hkwargs, hlater⟩ := hcancels
      have hmem : confirmed ∈ triedParticipants env tccDef start inputData := by
        rw [hsplit]
        simp
      apply hstays confirmed.id
      · apply returned_append.mpr
        right
        apply returned_append.mpr
        left
        apply returned_phase.mpr
        refine ⟨rfl, confirmed, ?_, rfl, hok confirmed (by simp)⟩
        apply mem_takeThrough_iff.mpr
        refine ⟨before, _, hsplit, ?_⟩
        intro other hother
        exact confirmOutcome_ok_iff.mpr (hok other (mem_append_left _ hother))
      · apply called_append.mpr
        right
        apply called_append.mpr
        right
        rw [called_cancelTrace hmem]
        exact ⟨(mem_cancelled_iff nodup_tried hsplit
          (isSome_of_invokeCancel hkwargs)).mpr hlater, kwargs, hkwargs⟩

/-- A confirmed participant stays out of the CANCEL phase exactly when no
CONFIRM raises after the CONFIRM of a participant which can be cancelled. -/
theorem confirmed_stays_iff (env : TccEnvironment ι V E)
    (tccDef : TccDefinition ι) (start : TccContext ι V)
    (inputData : Option V) :
    ConfirmedStays env ((TccRun.execute env tccDef start inputData).queries env.answer) ↔
      ¬ CancelsConfirmed env tccDef start inputData :=
  execute_course.confirmedStays_iff

/-- Two participants of which the second raises in CONFIRM: the first is
confirmed, and then its cancel method is called. -/
theorem not_confirmedStays_of_second_unconfirmed :
    ¬ ConfirmedStays (TccEnvironment.unconfirmed 1 () : TccEnvironment ℕ Unit Unit)
      ((TccRun.execute (TccEnvironment.unconfirmed 1 ())
        (.ofParticipants "pair" [.complete 0 false, .complete 1 false])
        (TccContext.create "1" "pair" Dict.empty) none).queries
          (TccEnvironment.unconfirmed 1 ()).answer) := by
  intro hstays
  have htrace : (TccRun.execute (TccEnvironment.unconfirmed 1 () : TccEnvironment ℕ Unit Unit)
      (.ofParticipants "pair" [.complete 0 false, .complete 1 false])
      (TccContext.create "1" "pair" Dict.empty) none).queries
        (TccEnvironment.unconfirmed 1 ()).answer =
      [.invoke .tryPhase 0 1 0 (.ok Dict.empty), .invoke .tryPhase 1 1 0 (.ok Dict.empty),
        .invoke .confirm 0 1 0 (.ok Dict.empty),
        .invoke .confirm 1 1 0 (.ok Dict.empty),
        .invoke .cancel 1 1 0 (.ok Dict.empty),
        .invoke .cancel 0 1 0 (.ok Dict.empty)] := rfl
  rw [htrace] at hstays
  refine hstays 0 ⟨1, 0, .ok Dict.empty, none, ?_, rfl⟩ ⟨1, 0, Dict.empty, ?_⟩
  · simp
  · simp

/-! ## Optional participants -/

/-- When the TRY and the CONFIRM of every participant which is not optional
succeed, `execute` returns `(True, None)` and calls no cancel method. -/
def OptionalSpared (env : TccEnvironment ι V E) (tccDef : TccDefinition ι)
    (start : TccContext ι V) (inputData : Option V)
    (trace : List (TccQuery ι V E))
    (result : Except (Fault E) (TccContext ι V × Except E (Bool × Option ι))) : Prop :=
  (∀ pDef ∈ tccDef.participantList, pDef.optional = false →
    (∃ value, tryOutcome env start inputData pDef = .ok value) ∧
      ∃ value, confirmOutcome env start inputData pDef = .ok value) →
  (∃ ctx, result = .ok (ctx, .ok (true, none))) ∧ phaseCalls .cancel trace = []

/-- No optional participant fails in a way which ends its phase: a TRY may
raise, but it is not cancelled, and after a TRY that returned the CONFIRM
returns. -/
def OptionalHarmless (env : TccEnvironment ι V E) (tccDef : TccDefinition ι)
    (start : TccContext ι V) (inputData : Option V) : Prop :=
  ∀ pDef ∈ tccDef.participantList, pDef.optional = true →
    tryOutcome env start inputData pDef ≠ .error .cancelled ∧
      ((∃ value, tryOutcome env start inputData pDef = .ok value) →
        ∃ value, confirmOutcome env start inputData pDef = .ok value)

theorem Course.optionalSpared_iff (h : Course env tccDef start inputData trace result) :
    OptionalSpared env tccDef start inputData trace result ↔
      (∃ pDef ∈ tccDef.participantList, pDef.optional = false ∧
        ¬ ((∃ value, tryOutcome env start inputData pDef = .ok value) ∧
          ∃ value, confirmOutcome env start inputData pDef = .ok value)) ∨
      OptionalHarmless env tccDef start inputData := by
  by_cases hpremise : ∀ pDef ∈ tccDef.participantList, pDef.optional = false →
      (∃ value, tryOutcome env start inputData pDef = .ok value) ∧
        ∃ value, confirmOutcome env start inputData pDef = .ok value
  · have hnoFailure : ¬ ∃ pDef ∈ tccDef.participantList, pDef.optional = false ∧
        ¬ ((∃ value, tryOutcome env start inputData pDef = .ok value) ∧
          ∃ value, confirmOutcome env start inputData pDef = .ok value) := by
      intro hfailure
      obtain ⟨pDef, hmem, hoptional, hfails⟩ := hfailure
      exact hfails (hpremise pDef hmem hoptional)
    rw [or_iff_right hnoFailure]
    constructor
    · intro hspared pDef hmem _
      obtain ⟨⟨ctx, hresult⟩, _⟩ := hspared hpremise
      rw [hresult] at h
      obtain ⟨hgo, hconfirm⟩ := h.of_succeeded pDef hmem
      refine ⟨?_, hconfirm⟩
      intro hcancelled
      simp [tryStops, hcancelled] at hgo
    · intro hharmless _
      apply h.committed_of_go
      intro pDef hmem
      cases hoptional : pDef.optional with
      | false =>
        obtain ⟨⟨value, hvalue⟩, hconfirm⟩ := hpremise pDef hmem hoptional
        exact ⟨by simp [tryStops, hvalue], fun _ => hconfirm⟩
      | true =>
        obtain ⟨hnot, hconfirm⟩ := hharmless pDef hmem hoptional
        refine ⟨?_, hconfirm⟩
        unfold tryStops
        cases houtcome : tryOutcome env start inputData pDef with
        | ok value => rfl
        | error fault =>
          cases fault with
          | cancelled => exact absurd houtcome hnot
          | exception error => simp [hoptional]
  · refine iff_of_true (fun h => absurd h hpremise) (Or.inl ?_)
    push Not at hpremise
    obtain ⟨pDef, hmem, hoptional, hfails⟩ := hpremise
    refine ⟨pDef, hmem, hoptional, ?_⟩
    intro hok
    obtain ⟨value, hvalue⟩ := hok.2
    exact hfails hok.1 value hvalue

/-- Optional participants are spared exactly when none of them fails in
CONFIRM, or the transaction fails anyway. -/
theorem optional_spared_iff (env : TccEnvironment ι V E)
    (tccDef : TccDefinition ι) (start : TccContext ι V)
    (inputData : Option V) :
    OptionalSpared env tccDef start inputData
        ((TccRun.execute env tccDef start inputData).queries env.answer)
        ((TccRun.execute env tccDef start inputData).outcome env.answer) ↔
      (∃ pDef ∈ tccDef.participantList, pDef.optional = false ∧
        ¬ ((∃ value, tryOutcome env start inputData pDef = .ok value) ∧
          ∃ value, confirmOutcome env start inputData pDef = .ok value)) ∨
      OptionalHarmless env tccDef start inputData :=
  execute_course.optionalSpared_iff

/-- The only participant is optional, its CONFIRM raises, and it is
cancelled. -/
theorem not_optionalSpared_of_unconfirmed :
    ¬ OptionalSpared (TccEnvironment.unconfirmed 0 () : TccEnvironment ℕ Unit Unit)
      (.ofParticipants "single" [.complete 0 true])
      (TccContext.create "1" "single" Dict.empty) none
      ((TccRun.execute (TccEnvironment.unconfirmed 0 ())
        (.ofParticipants "single" [.complete 0 true])
        (TccContext.create "1" "single" Dict.empty) none).queries
          (TccEnvironment.unconfirmed 0 ()).answer)
      ((TccRun.execute (TccEnvironment.unconfirmed 0 ())
        (.ofParticipants "single" [.complete 0 true])
        (TccContext.create "1" "single" Dict.empty) none).outcome
          (TccEnvironment.unconfirmed 0 ()).answer) := by
  intro hspared
  have hpremise : ∀ pDef ∈ (TccDefinition.ofParticipants "single"
      [ParticipantDefinition.complete 0 true]).participantList,
      pDef.optional = false → False := by
    intro pDef hmem hoptional
    have hsame : pDef = .complete 0 true := by
      simpa using (show pDef ∈ [ParticipantDefinition.complete 0 true] from hmem)
    rw [hsame] at hoptional
    cases hoptional
  have hcalls := (hspared fun pDef hmem hoptional =>
    (hpremise pDef hmem hoptional).elim).2
  have htrace : phaseCalls .cancel ((TccRun.execute (TccEnvironment.unconfirmed 0 () :
          TccEnvironment ℕ Unit Unit)
        (.ofParticipants "single" [.complete 0 true])
        (TccContext.create "1" "single" Dict.empty) none).queries
          (TccEnvironment.unconfirmed 0 ()).answer) = [0] := rfl
  rw [htrace] at hcalls
  cases hcalls

end Contract

end PyFly.Tcc
