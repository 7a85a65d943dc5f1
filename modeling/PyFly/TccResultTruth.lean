import PyFly.TccEngine

/-!
# Does a TCC result tell what happened?

The calls of a run of the engine are those of the orchestrator between calls
of ports.  Comparing them with the result shows that the result is truthful
exactly when there is nothing to report.
-/

namespace PyFly.Tcc

open Library Transactional List

variable {ι V E : Type} [DecidableEq ι]

/-! ## The calls between the port calls -/

def PortOnly (trace : List (TccQuery ι V E)) : Prop :=
  ∀ query ∈ trace, ∀ phase, query.called? phase = none

section Ports

variable {env : TccEnvironment ι V E}

omit [DecidableEq ι] in
theorem portOnly_nil : PortOnly ([] : List (TccQuery ι V E)) := by
  intro query hmem
  cases hmem

omit [DecidableEq ι] in
theorem PortOnly.append {first second : List (TccQuery ι V E)}
    (hfirst : PortOnly first) (hsecond : PortOnly second) :
    PortOnly (first ++ second) := by
  intro query hmem
  rcases mem_append.mp hmem with hmem | hmem
  · exact hfirst query hmem
  · exact hsecond query hmem

theorem PortOnly.lastCall?_around {first second : List (TccQuery ι V E)}
    (hfirst : PortOnly first) (hsecond : PortOnly second) (phase : TccPhase)
    (participant : ι) (trace : List (TccQuery ι V E)) :
    lastCall? phase participant (first ++ (trace ++ second)) =
      lastCall? phase participant trace := by
  have hnone : ∀ {other : List (TccQuery ι V E)}, PortOnly other →
      other.filter (fun query => query.called? phase = some participant) = [] := by
    intro other hother
    apply filter_eq_nil_iff.mpr
    intro query hmem
    simp [hother query hmem phase]
  unfold lastCall?
  rw [filter_append, filter_append, hnone hfirst, hnone hsecond, nil_append, append_nil]

omit [DecidableEq ι] in
theorem PortOnly.not_returned {trace : List (TccQuery ι V E)}
    (h : PortOnly trace) (phase : TccPhase) (participant : ι) :
    ¬ Returned env phase participant trace := by
  intro hreturned
  obtain ⟨attempt, timeoutMs, prepared, value, hmem, _⟩ := hreturned
  have hnone := h _ hmem phase
  simp [TccQuery.called?] at hnone

omit [DecidableEq ι] in
theorem PortOnly.returned_around {first second : List (TccQuery ι V E)}
    (hfirst : PortOnly first) (hsecond : PortOnly second) (phase : TccPhase)
    (participant : ι) (trace : List (TccQuery ι V E)) :
    Returned env phase participant (first ++ (trace ++ second)) ↔
      Returned env phase participant trace := by
  rw [returned_append, returned_append, or_iff_right (hfirst.not_returned phase participant),
    or_iff_left (hsecond.not_returned phase participant)]

theorem PortOnly.raised_around {first second : List (TccQuery ι V E)}
    (hfirst : PortOnly first) (hsecond : PortOnly second) (phase : TccPhase)
    (participant : ι) (trace : List (TccQuery ι V E)) :
    Raised env phase participant (first ++ (trace ++ second)) ↔
      Raised env phase participant trace := by
  unfold Raised
  rw [hfirst.lastCall?_around hsecond]

omit [DecidableEq ι] in
theorem portOnly_perform {query : TccQuery ι V E}
    (hquery : ∀ phase, query.called? phase = none) :
    PortOnly ((TccRun.perform query).queries env.answer) := by
  have hqueries : (TccRun.perform query).queries env.answer = [query] := by
    unfold TccRun.perform
    rw [Async.queries_bind]
    cases (Async.ask query : TccRun ι V E (Option V)).outcome env.answer <;> rfl
  rw [hqueries]
  intro other hmem phase
  rw [mem_singleton.mp hmem]
  exact hquery phase

omit [DecidableEq ι] in
theorem portOnly_notify (call : PortCall ι E) :
    PortOnly ((TccRun.notify env call).queries env.answer) := by
  unfold TccRun.notify
  cases env.events with
  | none => exact portOnly_nil
  | some port => exact portOnly_perform fun _ => rfl

omit [DecidableEq ι] in
theorem portOnly_persistState : PortOnly ((TccRun.persistState env).queries env.answer) := by
  unfold TccRun.persistState
  cases env.persistence with
  | none => exact portOnly_nil
  | some port => exact portOnly_perform fun _ => rfl

omit [DecidableEq ι] in
theorem portOnly_markCompleted (success : Bool) :
    PortOnly ((TccRun.markCompleted env success).queries env.answer) := by
  unfold TccRun.markCompleted
  cases env.persistence with
  | none => exact portOnly_nil
  | some port => exact portOnly_perform fun _ => rfl

theorem executeTcc_eq_ok {tccDef : TccDefinition ι} {request : TccRequest V}
    {result : TccResult ι V E}
    (h : (TccRun.executeTcc env tccDef request).outcome env.answer = .ok result) :
    ∃ before after ctx success failed, PortOnly before ∧ PortOnly after ∧
      (TccRun.executeTcc env tccDef request).queries env.answer =
        before ++ ((TccRun.execute env tccDef (request.context tccDef)
          request.inputData).queries env.answer ++ after) ∧
      (TccRun.execute env tccDef (request.context tccDef)
        request.inputData).outcome env.answer = .ok (ctx, .ok (success, failed)) ∧
      result = TccRun.buildResult env tccDef ctx success none failed := by
  unfold TccRun.executeTcc at h ⊢
  obtain ⟨_, _, hpersist, hqueriesStart⟩ := Async.bind_eq_ok _ h
  obtain ⟨_, _, hsettle, hqueriesPersist⟩ := Async.bind_eq_ok _ hpersist
  obtain ⟨settled, hsettled, hnotify, hqueriesSettle⟩ :=
    Async.bind_eq_ok _ hsettle
  obtain ⟨_, _, hmark, hqueriesNotify⟩ := Async.bind_eq_ok _ hnotify
  obtain ⟨_, _, hconclude, hqueriesMark⟩ := Async.bind_eq_ok _ hmark
  have hsame : settled = (TccRun.execute env tccDef (request.context tccDef)
      request.inputData).outcome env.answer := by
    have hbind := Coroutine.outcome_bind env.answer
      (TccRun.execute env tccDef (request.context tccDef) request.inputData)
      (fun result => (Coroutine.done (.ok result) :
        Coroutine (TccQuery ι V E) (TccReply V E) (Except (Fault E) (Except (Fault E)
            (TccContext ι V × Except E (Bool × Option ι))))))
    exact Except.ok.inj (hsettled.symm.trans hbind)
  have hsettleQueries : (TccRun.settle (TccRun.execute env tccDef
      (request.context tccDef) request.inputData)).queries env.answer =
      (TccRun.execute env tccDef (request.context tccDef)
        request.inputData).queries env.answer := by
    have hbind := Coroutine.queries_bind env.answer
      (TccRun.execute env tccDef (request.context tccDef) request.inputData)
      (fun result => (Coroutine.done (.ok result) :
        Coroutine (TccQuery ι V E) (TccReply V E) (Except (Fault E) (Except (Fault E)
            (TccContext ι V × Except E (Bool × Option ι))))))
    exact hbind.trans (append_nil _)
  have hconcludeQueries : (TccRun.conclude env tccDef
      (request.context tccDef) settled).queries env.answer = [] := by
    unfold TccRun.conclude
    rcases settled with (error | _) | ⟨ctx, error | ⟨success, failed⟩⟩ <;> rfl
  rw [hqueriesStart, hqueriesPersist, hqueriesSettle, hqueriesNotify,
    hqueriesMark, hsettleQueries, hconcludeQueries, append_nil]
  have hcourse := @execute_course _ V E _ env tccDef (request.context tccDef) request.inputData
  have hended := hsame.symm
  rcases settled with (error | _) | ⟨ctx, error | ⟨success, failed⟩⟩
  · exact absurd hended (hcourse.ne_exception error)
  · cases hconclude
  · rcases hcourse.threePhases.pairs ctx _ hended with hpair | ⟨_, hpair⟩
    · cases hpair
    · cases hpair
  · have hbefore := (@portOnly_notify _ V E env .onStart).append
      (@portOnly_persistState _ V E env)
    have hafter := (@portOnly_notify _ V E env (.onCompleted success)).append
      (@portOnly_markCompleted _ V E env success)
    refine ⟨_, _, ctx, success, failed, hbefore, hafter, ?_, hended,
      (Except.ok.inj hconclude).symm⟩
    simp only [append_assoc, TccRun.succeeded]

end Ports

section Calls

variable {env : TccEnvironment ι V E} {phase : TccPhase} {participant : ι}
variable {first second : List (TccQuery ι V E)}

variable {trace : List (TccQuery ι V E)}

theorem filter_calls_of_phaseCalls_nil (h : phaseCalls phase trace = []) :
    trace.filter (fun query => query.called? phase = some participant) = [] := by
  apply filter_eq_nil_iff.mpr
  intro query hmem
  simp [filterMap_eq_nil_iff.mp h query hmem]

theorem not_raised_of_phaseCalls_nil (h : phaseCalls phase trace = []) :
    ¬ Raised env phase participant trace := by
  intro hraised
  obtain ⟨query, error, hlast, _⟩ := hraised
  unfold lastCall? at hlast
  rw [filter_calls_of_phaseCalls_nil h] at hlast
  cases hlast

omit [DecidableEq ι] in
theorem not_returned_of_phaseCalls_nil (h : phaseCalls phase trace = []) :
    ¬ Returned env phase participant trace := by
  intro hreturned
  obtain ⟨attempt, timeoutMs, prepared, value, hmem, _⟩ := hreturned
  have hnone := filterMap_eq_nil_iff.mp h _ hmem
  simp [TccQuery.called?] at hnone

theorem raised_append_left (h : phaseCalls phase second = []) :
    Raised env phase participant (first ++ second) ↔ Raised env phase participant first := by
  unfold Raised lastCall?
  rw [filter_append, filter_calls_of_phaseCalls_nil h, append_nil]

theorem raised_append_right (h : phaseCalls phase first = []) :
    Raised env phase participant (first ++ second) ↔ Raised env phase participant second := by
  unfold Raised lastCall?
  rw [filter_append, filter_calls_of_phaseCalls_nil h, nil_append]

theorem lastCall?_phase {pDefs : List (ParticipantDefinition ι)}
    {ctx : ParticipantDefinition ι → TccContext ι V} {input : Option V}
    (hnodup : (pDefs.map ParticipantDefinition.id).Nodup)
    {pDef : ParticipantDefinition ι} (hmem : pDef ∈ pDefs) :
    lastCall? phase pDef.id (pDefs.flatMap fun pDef =>
        phaseQueries env phase pDef (ctx pDef) input) =
      lastCall? phase pDef.id (phaseQueries env phase pDef (ctx pDef) input) := by
  have hother : ∀ (others : List (ParticipantDefinition ι)),
      pDef.id ∉ others.map ParticipantDefinition.id →
      (others.flatMap fun pDef =>
          phaseQueries env phase pDef (ctx pDef) input).filter
        (fun query => query.called? phase = some pDef.id) = [] := by
    intro others hnotMem
    apply filter_eq_nil_iff.mpr
    intro query hquery
    obtain ⟨other, hother, htrace⟩ := mem_flatMap.mp hquery
    cases query with
    | invoke invoked called attempt timeoutMs prepared =>
      have hid := ((phaseQueries_tries other (ctx other)).mem_invoke htrace).2.1
      intro hcalled
      have hsome : (TccQuery.invoke invoked called attempt timeoutMs
          prepared).called? phase = some pDef.id :=
        of_decide_eq_true hcalled
      simp only [TccQuery.called?] at hsome
      split at hsome
      · apply hnotMem
        rw [← Option.some.inj hsome, hid]
        exact mem_map_of_mem hother
      · cases hsome
    | sleep _ _ _ _ => simp [TccQuery.called?]
    | notify _ => simp [TccQuery.called?]
    | persistState _ => simp [TccQuery.called?]
    | markCompleted _ => simp [TccQuery.called?]
  obtain ⟨before, after, hsplit⟩ := append_of_mem hmem
  rw [hsplit, map_append, map_cons] at hnodup
  have hparts := nodup_append.mp hnodup
  have hbefore : pDef.id ∉ before.map ParticipantDefinition.id := by
    intro hmem
    exact hparts.2.2 _ hmem _ mem_cons_self rfl
  have hafter : pDef.id ∉ after.map ParticipantDefinition.id :=
    (nodup_cons.mp hparts.2.1).1
  unfold lastCall?
  rw [hsplit, flatMap_append, flatMap_cons, filter_append,
    filter_append, hother before hbefore, hother after hafter,
    nil_append, append_nil]

theorem raised_phase {pDefs : List (ParticipantDefinition ι)}
    {ctx : ParticipantDefinition ι → TccContext ι V} {input : Option V}
    (hnodup : (pDefs.map ParticipantDefinition.id).Nodup)
    {pDef : ParticipantDefinition ι} (hmem : pDef ∈ pDefs)
    (hended : phaseOutcome env phase pDef (ctx pDef) input ≠ .error .cancelled) :
    Raised env phase pDef.id (pDefs.flatMap fun pDef =>
        phaseQueries env phase pDef (ctx pDef) input) ↔
      ∃ error, phaseOutcome env phase pDef (ctx pDef) input = .error (.exception error) := by
  obtain ⟨query, hquery, hanswer⟩ :=
    (@phaseQueries_tries _ V E _ env input phase pDef (ctx pDef)).lastCall
  rw [or_iff_left hended] at hanswer
  unfold Raised
  rw [lastCall?_phase hnodup hmem, hquery]
  constructor
  · intro h
    obtain ⟨_, error, hsame, herror⟩ := h
    cases hsame
    exact ⟨error, hanswer.symm.trans herror⟩
  · intro h
    obtain ⟨error, herror⟩ := h
    exact ⟨query, error, rfl, hanswer.trans herror⟩

end Calls

/-! ## The result -/

structure TruthfulResult (env : TccEnvironment ι V E)
    (trace : List (TccQuery ι V E)) (result : TccResult ι V E) : Prop where
  failedListed : result.success = false → ∃ item ∈ result.failedParticipants,
      result.failedParticipantId = some item.1
  tryErrors : ∀ item ∈ result.participantResults.items,
    item.2.tryError.isSome ↔ Raised env .tryPhase item.1 trace
  confirmErrors : ∀ item ∈ result.participantResults.items,
    item.2.confirmError.isSome ↔ Raised env .confirm item.1 trace
  cancelErrors : ∀ item ∈ result.participantResults.items,
    item.2.cancelError.isSome ↔ Raised env .cancel item.1 trace
  confirmedPhase : ∀ item ∈ result.participantResults.items,
    item.2.finalPhase = .confirm ↔ Returned env .confirm item.1 trace
  cancelledPhase : ∀ item ∈ result.participantResults.items,
    item.2.finalPhase = .cancel ↔ Returned env .cancel item.1 trace

section Truth

variable {env : TccEnvironment ι V E} {tccDef : TccDefinition ι}
variable {start : TccContext ι V} {inputData : Option V}

theorem failedParticipants_buildResult (ctx : TccContext ι V)
    (success : Bool) (error : Option E) (failed : Option ι) :
    (TccRun.buildResult env tccDef ctx success error failed).failedParticipants = [] := by
  apply filter_eq_nil_iff.mpr
  intro item hmem
  obtain ⟨filed, _, hitem⟩ := mem_map.mp hmem
  rw [← hitem]
  simp

variable {failed : Option ι}

theorem mem_buildResult {ctx : TccContext ι V} {success : Bool}
    {error : Option E} {item : ι × ParticipantResult ι V E}
    (hmem : item ∈ (TccRun.buildResult env tccDef ctx success error
      failed).participantResults.items) :
    (∃ pDef ∈ tccDef.participantList, item.1 = pDef.id) ∧
      item.2.tryError = none ∧ item.2.confirmError = none ∧
      item.2.cancelError = none ∧
      item.2.finalPhase = (ctx.participantStatuses.get? item.1).getD .tryPhase := by
  obtain ⟨filed, hfiled, hitem⟩ := mem_map.mp hmem
  rw [← hitem]
  exact ⟨⟨filed.2, mem_map_of_mem hfiled,
    (tccDef.filedById filed hfiled).symm⟩, rfl, rfl, rfl, rfl⟩

theorem get?_confirmAll (confirmed : List (ParticipantDefinition ι))
    (ctx : TccContext ι V) {pDef : ParticipantDefinition ι}
    (h : pDef ∈ confirmed ∨ ctx.participantStatuses.get? pDef.id = some .confirm) :
    (confirmAll ctx confirmed).participantStatuses.get? pDef.id = some .confirm := by
  induction confirmed generalizing ctx with
  | nil =>
    rcases h with hmem | hstatus
    · cases hmem
    · exact hstatus
  | cons first rest ih =>
    apply ih (ctx.setParticipantStatus first.id .confirm)
    by_cases hsame : pDef.id = first.id
    · right
      rw [hsame]
      exact Dict.get?_set_self _ _ _
    · rcases h with hmem | hstatus
      · left
        rcases mem_cons.mp hmem with hhead | htail
        · exact absurd (congrArg ParticipantDefinition.id hhead) hsame
        · exact htail
      · right
        exact (Dict.get?_set_of_ne hsame _).trans hstatus

theorem truthful_of_committed (htried : tccDef.participantList.find?
      (tryStops env start inputData) = none)
    (hconfirmed : (triedParticipants env tccDef start inputData).find?
      (confirmStops env start inputData) = none) {whole : List (TccQuery ι V E)}
    (hraised : ∀ phase participant, Raised env phase participant whole ↔
      Raised env phase participant (tryTrace env start inputData tccDef.participantList ++
          confirmTrace env start inputData (triedParticipants env tccDef start inputData)))
    (hreturned : ∀ phase participant, Returned env phase participant whole ↔
      Returned env phase participant (tryTrace env start inputData tccDef.participantList ++
          confirmTrace env start inputData (triedParticipants env tccDef start inputData))) :
    TruthfulResult env whole (TccRun.buildResult env tccDef
          (afterConfirms env tccDef start inputData) true none failed) ↔
      ∀ pDef ∈ tccDef.participantList,
        (∃ value, tryOutcome env start inputData pDef = .ok value) ∧
          ∃ value, confirmOutcome env start inputData pDef = .ok value := by
  have hconfirms : ∀ pDef ∈ triedParticipants env tccDef start inputData,
      ∃ value, confirmOutcome env start inputData pDef = .ok value := by
    intro pDef hmem
    apply confirmOutcome_ok_iff.mp
    simpa using List.find?_eq_none.mp hconfirmed pDef hmem
  have hnotCancelled : ∀ pDef ∈ tccDef.participantList,
      tryOutcome env start inputData pDef ≠ .error .cancelled := by
    intro pDef hmem hcancelled
    have hstops := List.find?_eq_none.mp htried pDef hmem
    simp [tryStops, hcancelled] at hstops
  have hraisedTry : ∀ pDef ∈ tccDef.participantList, Raised env .tryPhase pDef.id whole ↔
        ∃ error, tryOutcome env start inputData pDef = .error (.exception error) := by
    intro pDef hmem
    rw [hraised, raised_append_left laterPhases_confirmTrace.noTry]
    unfold tryTrace
    rw [takeThrough_of_find?_none htried]
    exact raised_phase tccDef.nodup_ids hmem (hnotCancelled pDef hmem)
  have hmemTried : ∀ pDef ∈ tccDef.participantList,
      (∃ value, tryOutcome env start inputData pDef = .ok value) →
      pDef ∈ triedParticipants env tccDef start inputData := by
    intro pDef hmem hok
    unfold triedParticipants triedOf
    rw [takeWhile_of_find?_none htried]
    exact mem_filter.mpr ⟨hmem, tryOutcome_ok_iff.mpr hok⟩
  constructor
  · intro htruthful pDef hmem
    have hitem : (pDef.id, _) ∈ (TccRun.buildResult env tccDef
        (afterConfirms env tccDef start inputData) true none failed).participantResults.items :=
      mem_map_of_mem (Dict.get?_eq_some_iff.mp (TccDefinition.get?_participants hmem))
    have hquiet := (htruthful.tryErrors _ hitem).not.mp (by simp)
    have hok : ∃ value, tryOutcome env start inputData pDef = .ok value := by
      cases houtcome : tryOutcome env start inputData pDef with
      | ok value => exact ⟨value, rfl⟩
      | error fault =>
        cases fault with
        | cancelled => exact absurd houtcome (hnotCancelled pDef hmem)
        | exception error =>
          exact absurd ((hraisedTry pDef hmem).mpr ⟨error, houtcome⟩) hquiet
    exact ⟨hok, hconfirms pDef (hmemTried pDef hmem hok)⟩
  · intro hall
    have hnodup : ((triedParticipants env tccDef start inputData).map
        ParticipantDefinition.id).Nodup :=
      tccDef.nodup_ids.sublist ((triedOf_sublist _).map _)
    have hconfirmTrace : confirmTrace env start inputData
        (triedParticipants env tccDef start inputData) =
        (triedParticipants env tccDef start inputData).flatMap fun pDef =>
          phaseQueries env .confirm pDef (reserve env start inputData start pDef) none := by
      unfold confirmTrace
      rw [takeThrough_of_find?_none hconfirmed]
    have htryConfirm : phaseCalls .confirm
        (tryTrace env start inputData tccDef.participantList) = [] :=
      phaseCalls_phase_of_ne (by decide) _ _
    have hnoCancel : phaseCalls .cancel (tryTrace env start inputData tccDef.participantList ++
          confirmTrace env start inputData
            (triedParticipants env tccDef start inputData)) = [] := by
      rw [phaseCalls_append, phaseCalls_cancel_try, phaseCalls_cancel_confirm, append_nil]
    have hfinal : ∀ pDef ∈ tccDef.participantList, (afterConfirms env tccDef start
          inputData).participantStatuses.get? pDef.id = some .confirm := by
      intro pDef hmem
      apply get?_confirmAll
      left
      rw [takeWhile_of_find?_none hconfirmed]
      exact hmemTried pDef hmem (hall pDef hmem).1
    refine ⟨fun hfalse => absurd hfalse (by simp [TccRun.buildResult]),
      ?_, ?_, ?_, ?_, ?_⟩
    · intro item hitem
      obtain ⟨⟨pDef, hmem, hid⟩, hnone, _⟩ := mem_buildResult hitem
      rw [hnone, hid, hraisedTry pDef hmem]
      obtain ⟨value, hvalue⟩ := (hall pDef hmem).1
      simp [hvalue]
    · intro item hitem
      obtain ⟨⟨pDef, hmem, hid⟩, _, hnone, _⟩ := mem_buildResult hitem
      obtain ⟨value, hvalue⟩ := (hall pDef hmem).2
      have hvalue' : phaseOutcome env .confirm pDef
          (reserve env start inputData start pDef) none = .ok value := hvalue
      rw [hnone, hid, hraised, raised_append_right htryConfirm,
        hconfirmTrace, raised_phase hnodup
          (hmemTried pDef hmem (hall pDef hmem).1) (by simp [hvalue'])]
      simp [hvalue']
    · intro item hitem
      obtain ⟨_, _, _, hnone, _⟩ := mem_buildResult hitem
      rw [hnone, hraised]
      simpa using not_raised_of_phaseCalls_nil hnoCancel
    · intro item hitem
      obtain ⟨⟨pDef, hmem, hid⟩, _, _, _, hphase⟩ := mem_buildResult hitem
      rw [hphase, hid, hfinal pDef hmem]
      refine iff_of_true rfl ?_
      rw [hreturned]
      apply returned_append.mpr
      right
      rw [hconfirmTrace]
      exact returned_phase.mpr ⟨rfl, pDef,
        hmemTried pDef hmem (hall pDef hmem).1, rfl, (hall pDef hmem).2⟩
    · intro item hitem
      obtain ⟨⟨pDef, hmem, hid⟩, _, _, _, hphase⟩ := mem_buildResult hitem
      rw [hphase, hid, hfinal pDef hmem]
      refine iff_of_false (by decide) ?_
      rw [hreturned]
      exact not_returned_of_phaseCalls_nil hnoCancel

theorem Course.truthful_iff {trace : List (TccQuery ι V E)}
    {ctx : TccContext ι V} {success : Bool}
    (h : Course env tccDef start inputData trace
      (.ok (ctx, .ok (success, failed)))) {whole : List (TccQuery ι V E)}
    (hraised : ∀ phase participant, Raised env phase participant whole ↔
      Raised env phase participant trace)
    (hreturned : ∀ phase participant, Returned env phase participant whole ↔
      Returned env phase participant trace) :
    TruthfulResult env whole (TccRun.buildResult env tccDef ctx success none failed) ↔
      ∀ pDef ∈ tccDef.participantList,
        (∃ value, tryOutcome env start inputData pDef = .ok value) ∧
          ∃ value, confirmOutcome env start inputData pDef = .ok value := by
  have hnotFailed : ∀ {ctx' : TccContext ι V} {id : ι},
      cancelEnd env tccDef start inputData ctx' id = .ok (ctx, .ok (success, failed)) →
      ¬ TruthfulResult env whole (TccRun.buildResult env tccDef ctx success none failed) := by
    intro ctx' id hend htruthful
    cases (cancelEnd_eq_ok hend).1
    obtain ⟨item, hitem, _⟩ := htruthful.failedListed rfl
    rw [failedParticipants_buildResult] at hitem
    cases hitem
  generalize hresult : (.ok (ctx, .ok (success, failed)) : Except (Fault E)
    (TccContext ι V × Except E (Bool × Option ι))) = result at h
  cases h with
  | tryInterrupted pDef hfind hcancelled => cases hresult
  | tryFailed pDef error hfind hfailed =>
    refine iff_of_false (hnotFailed hresult.symm) ?_
    intro hall
    obtain ⟨⟨value, hvalue⟩, _⟩ :=
      hall pDef (mem_of_find?_eq_some hfind)
    rw [hfailed] at hvalue
    cases hvalue
  | confirmInterrupted pDef htried hfind hcancelled => cases hresult
  | confirmFailed pDef error htried hfind hfailed =>
    refine iff_of_false (hnotFailed hresult.symm) ?_
    intro hall
    obtain ⟨_, value, hvalue⟩ := hall pDef
      ((triedOf_sublist _).subset (mem_of_find?_eq_some hfind))
    rw [hfailed] at hvalue
    cases hvalue
  | committed htried hconfirmed =>
    cases hresult
    exact truthful_of_committed htried hconfirmed hraised hreturned

/-- The result of a run tells what happened exactly when the TRY and the
CONFIRM of every participant succeed. -/
theorem result_truthful_iff (env : TccEnvironment ι V E)
    (tccDef : TccDefinition ι) (request : TccRequest V)
    {result : TccResult ι V E}
    (h : (TccRun.executeTcc env tccDef request).outcome env.answer = .ok result) :
    TruthfulResult env ((TccRun.executeTcc env tccDef request).queries env.answer) result ↔
      ∀ pDef ∈ tccDef.participantList,
        (∃ value, tryOutcome env (request.context tccDef) request.inputData pDef = .ok value) ∧
        ∃ value, confirmOutcome env (request.context tccDef)
          request.inputData pDef = .ok value := by
  obtain ⟨before, after, ctx, success, failed, hbefore, hafter, htrace,
    hended, hresult⟩ := executeTcc_eq_ok h
  have hcourse := @execute_course _ V E _ env tccDef (request.context tccDef) request.inputData
  rw [hended] at hcourse
  rw [hresult]
  apply hcourse.truthful_iff
  · intro phase participant
    rw [htrace]
    exact hbefore.raised_around hafter phase participant _
  · intro phase participant
    rw [htrace]
    exact hbefore.returned_around hafter phase participant _

def singleTcc (optional : Bool) : TccDefinition ℕ :=
  .ofParticipants "single" [.complete 0 optional]

theorem result_truthful_iff_single : ∃ result, (TccRun.executeTcc (TccEnvironment.obliging () :
        TccEnvironment ℕ Unit Unit) (singleTcc false)
        ⟨"1", Dict.empty, none⟩).outcome (TccEnvironment.obliging ()).answer = .ok result ∧
      TruthfulResult (TccEnvironment.obliging ())
        ((TccRun.executeTcc (TccEnvironment.obliging ()) (singleTcc false)
          ⟨"1", Dict.empty, none⟩).queries (TccEnvironment.obliging ()).answer) result := by
  refine ⟨_, rfl, (result_truthful_iff (TccEnvironment.obliging () :
    TccEnvironment ℕ Unit Unit) (singleTcc false) ⟨"1", Dict.empty, none⟩
    rfl).mpr ?_⟩
  intro pDef hmem
  have hsame : pDef = .complete 0 false := by
    simpa using (show pDef ∈ [ParticipantDefinition.complete 0 false] from hmem)
  rw [hsame]
  exact ⟨⟨none, rfl⟩, none, rfl⟩

/-- The CONFIRM of the only participant raises, and the result names it as
failed without listing it among the failed participants. -/
theorem not_truthful_of_unconfirmed :
    ∃ result, (TccRun.executeTcc (TccEnvironment.unconfirmed 0 () :
        TccEnvironment ℕ Unit Unit) (singleTcc false)
        ⟨"1", Dict.empty, none⟩).outcome (TccEnvironment.unconfirmed 0 ()).answer = .ok result ∧
      ¬ TruthfulResult (TccEnvironment.unconfirmed 0 ())
        ((TccRun.executeTcc (TccEnvironment.unconfirmed 0 ())
          (singleTcc false) ⟨"1", Dict.empty, none⟩).queries
            (TccEnvironment.unconfirmed 0 ()).answer) result := by
  refine ⟨_, rfl, ?_⟩
  intro htruthful
  obtain ⟨item, hitem, _⟩ := htruthful.failedListed rfl
  have hnone : item ∈ ([] : List (ℕ × ParticipantResult ℕ Unit Unit)) :=
    hitem
  cases hnone

end Truth

end PyFly.Tcc
