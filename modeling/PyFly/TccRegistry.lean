import PyFly.TccResultTruth
import Mathlib.Data.List.Sort

/-!
# The TCC registry

`TccRegistry.register_from_bean` walks over the nested classes of a bean in
the order of their names and accepts it when the participant ids are distinct
and every participant has a try method.  It does not ask for the confirm
method which the CONFIRM phase insists on.
-/

namespace PyFly.Tcc

open Library Transactional List

variable {ι V E : Type}

/-- The dictionary `@tcc` puts on a class, with the defaults filled in. -/
structure TccMeta where
  name : String
  timeoutMs : ℤ
  retryEnabled : Bool
  maxRetries : ℤ
  backoffMs : ℤ

structure ParticipantMeta (ι : Type) where
  id : ι
  order : ℤ
  timeoutMs : ℤ
  optional : Bool

structure NestedClass (ι : Type) where
  participantMeta : Option (ParticipantMeta ι)
  methods : Dict String PhaseMethod

structure TccBean (ι : Type) where
  qualname : String
  tccMeta : Option TccMeta
  attributes : Dict String (Option (NestedClass ι))

inductive TccValidationError (ι : Type)
  | notDecorated (qualname : String)
  | duplicateParticipant (participant : ι) (tccName : String)
  | missingTryMethod (participant : ι) (tccName : String)

/-- `dir`: the attributes in the order of their names. -/
def dir {α : Type} (attributes : Dict String α) : List α :=
  (attributes.items.insertionSort fun first second =>
    first.1 ≤ second.1).map Prod.snd

structure ResolvedMethods where
  tryMethod : Option PhaseMethod
  confirmMethod : Option PhaseMethod
  cancelMethod : Option PhaseMethod

def ResolvedMethods.resolveOne (resolved : ResolvedMethods)
    (method : PhaseMethod) : ResolvedMethods :=
  if method.tryMeta.isSome then { resolved with tryMethod := some method }
  else if method.confirmMeta.isSome then
    { resolved with confirmMethod := some method }
  else if method.cancelMeta.isSome then
    { resolved with cancelMethod := some method }
  else resolved

def resolveMethods (methods : Dict String PhaseMethod) : ResolvedMethods :=
  (dir methods).foldl ResolvedMethods.resolveOne ⟨none, none, none⟩

section Registration

variable [DecidableEq ι]

/-- The loop over the attributes of the class; `collected` are the
participants found so far. -/
def collectParticipants (tccName : String) :
    List (Option (NestedClass ι)) → List (ParticipantDefinition ι) →
      Except (TccValidationError ι) (List (ParticipantDefinition ι))
  | [], collected => .ok collected
  | member :: rest, collected =>
    match member.bind NestedClass.participantMeta with
    | none => collectParticipants tccName rest collected
    | some participantMeta =>
      if participantMeta.id ∈
          collected.map ParticipantDefinition.id then
        .error (.duplicateParticipant participantMeta.id tccName)
      else
        let resolved := resolveMethods
          ((member.map NestedClass.methods).getD Dict.empty)
        match resolved.tryMethod with
        | none => .error (.missingTryMethod participantMeta.id tccName)
        | some tryMethod =>
          collectParticipants tccName rest (collected ++
            [{ id := participantMeta.id
               order := participantMeta.order
               timeoutMs := participantMeta.timeoutMs
               optional := participantMeta.optional
               tryMethod := some tryMethod
               confirmMethod := resolved.confirmMethod
               cancelMethod := resolved.cancelMethod }])

/-- `unsorted_participants.sort(key=lambda p: p.order)`. -/
def sortByOrder (pDefs : List (ParticipantDefinition ι)) : List (ParticipantDefinition ι) :=
  pDefs.insertionSort fun first second => first.order ≤ second.order

abbrev TccRegistry (ι : Type) := Dict String (TccDefinition ι)

def TccRegistry.registerFromBean (registry : TccRegistry ι) (bean : TccBean ι) :
    Except (TccValidationError ι) (TccRegistry ι × TccDefinition ι) :=
  match bean.tccMeta with
  | none => .error (.notDecorated bean.qualname)
  | some tccMeta =>
    match collectParticipants tccMeta.name (dir bean.attributes) [] with
    | .error error => .error error
    | .ok collected =>
      let definition : TccDefinition ι :=
        { TccDefinition.ofParticipants tccMeta.name
            (sortByOrder collected) with
          timeoutMs := tccMeta.timeoutMs
          retryEnabled := tccMeta.retryEnabled
          maxRetries := tccMeta.maxRetries
          backoffMs := tccMeta.backoffMs }
      .ok (registry.set tccMeta.name definition, definition)

def TccRegistry.execute (registry : TccRegistry ι)
    (env : TccEnvironment ι V E) (tccName : String)
    (request : TccRequest V) : TccRun ι V E (TccResult ι V E) :=
  match registry.get? tccName with
  | none => Async.throw (.exception (env.notRegistered tccName))
  | some tccDef => TccRun.executeTcc env tccDef request

/-! ## Accepted beans -/

theorem collectParticipants_tryMethod {tccName : String}
    {members : List (Option (NestedClass ι))}
    {collected found : List (ParticipantDefinition ι)}
    (hcollected : ∀ pDef ∈ collected, pDef.tryMethod.isSome)
    (h : collectParticipants tccName members collected = .ok found) :
    ∀ pDef ∈ found, pDef.tryMethod.isSome := by
  induction members generalizing collected with
  | nil =>
    cases h
    exact hcollected
  | cons member rest ih =>
    rw [collectParticipants] at h
    cases hmeta : member.bind NestedClass.participantMeta with
    | none =>
      rw [hmeta] at h
      exact ih hcollected h
    | some participantMeta =>
      rw [hmeta] at h
      dsimp only at h
      split at h
      · cases h
      · split at h
        · cases h
        · refine ih ?_ h
          intro pDef hmem
          rcases mem_append.mp hmem with hold | hnew
          · exact hcollected pDef hold
          · rw [mem_singleton.mp hnew]
            rfl

theorem TccRegistry.registerFromBean_spec {registry registry' : TccRegistry ι}
    {bean : TccBean ι} {tccDef : TccDefinition ι}
    (h : registry.registerFromBean bean = .ok (registry', tccDef)) :
    (∀ pDef ∈ tccDef.participantList, pDef.tryMethod.isSome) ∧
      registry'.get? tccDef.name = some tccDef := by
  unfold TccRegistry.registerFromBean at h
  cases hmeta : bean.tccMeta with
  | none =>
    rw [hmeta] at h
    cases h
  | some tccMeta =>
    rw [hmeta] at h
    dsimp only at h
    cases hcollect : collectParticipants tccMeta.name (dir bean.attributes) [] with
    | error error =>
      rw [hcollect] at h
      cases h
    | ok collected =>
      rw [hcollect] at h
      cases h
      refine ⟨?_, Dict.get?_set_self _ _ _⟩
      intro pDef hmem
      obtain ⟨item, hitem, hvalue⟩ := mem_map.mp hmem
      obtain ⟨filed, hfiled, hsame⟩ :=
        mem_map.mp (Dict.mem_items_ofList hitem)
      have hfound : pDef ∈ collected := by
        rw [← hvalue, ← hsame]
        exact (mem_insertionSort _).mp hfiled
      exact collectParticipants_tryMethod (by simp) hcollect pDef hfound

def MethodsReturn (env : TccEnvironment ι V E) : Prop :=
  ∀ phase participant attempt timeoutMs kwargs, ∃ value,
    env.answer (.invoke phase participant attempt timeoutMs (.ok kwargs)) = .ok value

structure PortsReturn (env : TccEnvironment ι V E) : Prop where
  onStart : ∃ value, env.answer (.notify .onStart) = .ok value
  persistState : ∃ value, env.answer (.persistState env.startedAt) = .ok value
  onCompleted : ∃ value, env.answer (.notify (.onCompleted true)) = .ok value
  markCompleted : ∃ value, env.answer (.markCompleted true) = .ok value

section Succeeds

variable {env : TccEnvironment ι V E}

omit [DecidableEq ι] in
theorem outcome_perform {query : TccQuery ι V E} :
    (TccRun.perform query).outcome env.answer = .ok () ↔
      ∃ value, env.answer query = .ok value := by
  unfold TccRun.perform
  rw [Async.outcome_bind, Async.outcome_ask]
  cases env.answer query with
  | ok value => exact iff_of_true rfl ⟨value, rfl⟩
  | error fault =>
    refine iff_of_false (fun h => ?_) (fun h => ?_)
    · cases h
    · obtain ⟨value, hvalue⟩ := h
      cases hvalue

omit [DecidableEq ι] in
theorem outcome_notify (call : PortCall ι E) :
    (TccRun.notify env call).outcome env.answer = .ok () ↔
      ∃ value, env.answer (.notify call) = .ok value := by
  unfold TccRun.notify
  cases hevents : env.events with
  | none => simp [TccEnvironment.answer, hevents]
  | some port => exact outcome_perform

omit [DecidableEq ι] in
theorem outcome_persistState : (TccRun.persistState env).outcome env.answer = .ok () ↔
      ∃ value, env.answer (.persistState env.startedAt) = .ok value := by
  unfold TccRun.persistState
  cases hpersistence : env.persistence with
  | none => simp [TccEnvironment.answer, hpersistence]
  | some port => exact outcome_perform

omit [DecidableEq ι] in
theorem outcome_markCompleted (success : Bool) :
    (TccRun.markCompleted env success).outcome env.answer = .ok () ↔
      ∃ value, env.answer (.markCompleted success) = .ok value := by
  unfold TccRun.markCompleted
  cases hpersistence : env.persistence with
  | none => simp [TccEnvironment.answer, hpersistence]
  | some port => exact outcome_perform

omit [DecidableEq ι] in
theorem outcome_settle {α : Type} (code : TccRun ι V E α) :
    (TccRun.settle code).outcome env.answer = .ok (code.outcome env.answer) :=
  Coroutine.outcome_bind env.answer code _

theorem executeTcc_succeeds_iff {tccDef : TccDefinition ι} {request : TccRequest V} :
    (∃ result, (TccRun.executeTcc env tccDef request).outcome env.answer =
        .ok result ∧ result.success = true) ↔
      PortsReturn env ∧ ∃ ctx failed, (TccRun.execute env tccDef (request.context tccDef)
          request.inputData).outcome env.answer = .ok (ctx, .ok (true, failed)) := by
  constructor
  · intro h
    obtain ⟨result, hresult, hsuccess⟩ := h
    obtain ⟨_, _, ctx, success, failed, _, _, _, hended, hbuilt⟩ :=
      executeTcc_eq_ok hresult
    have htrue : success = true := by
      rw [hbuilt] at hsuccess
      exact hsuccess
    rw [htrue] at hended
    refine ⟨?_, ctx, failed, hended⟩
    unfold TccRun.executeTcc at hresult
    obtain ⟨_, hstart, hpersistRest, _⟩ := Async.bind_eq_ok _ hresult
    obtain ⟨_, hpersist, hsettleRest, _⟩ := Async.bind_eq_ok _ hpersistRest
    obtain ⟨settled, hsettled, hnotifyRest, _⟩ :=
      Async.bind_eq_ok _ hsettleRest
    obtain ⟨_, hnotify, hmarkRest, _⟩ := Async.bind_eq_ok _ hnotifyRest
    obtain ⟨_, hmark, _, _⟩ := Async.bind_eq_ok _ hmarkRest
    have hsucceeded : TccRun.succeeded settled = true := by
      rw [outcome_settle, hended] at hsettled
      rw [← Except.ok.inj hsettled]
      rfl
    rw [hsucceeded] at hnotify hmark
    exact ⟨(outcome_notify _).mp hstart, outcome_persistState.mp hpersist,
      (outcome_notify _).mp hnotify, (outcome_markCompleted _).mp hmark⟩
  · intro h
    obtain ⟨hports, ctx, failed, hended⟩ := h
    have hsettled := @outcome_settle _ V E env _ (TccRun.execute env tccDef
      (request.context tccDef) request.inputData)
    rw [hended] at hsettled
    refine ⟨TccRun.buildResult env tccDef ctx true none failed, ?_, rfl⟩
    unfold TccRun.executeTcc
    rw [Async.outcome_bind_of_ok _ ((outcome_notify _).mpr hports.onStart),
      Async.outcome_bind_of_ok _ (outcome_persistState.mpr hports.persistState),
      Async.outcome_bind_of_ok _ hsettled]
    dsimp only [TccRun.succeeded]
    rw [Async.outcome_bind_of_ok _ ((outcome_notify _).mpr hports.onCompleted),
      Async.outcome_bind_of_ok _ ((outcome_markCompleted _).mpr hports.markCompleted)]
    rfl

theorem execute_succeeds_iff {tccDef : TccDefinition ι}
    {start : TccContext ι V} {inputData : Option V} :
    (∃ ctx failed, (TccRun.execute env tccDef start inputData).outcome
        env.answer = .ok (ctx, .ok (true, failed))) ↔
      ∀ pDef ∈ tccDef.participantList, tryStops env start inputData pDef = false ∧
          ((∃ value, tryOutcome env start inputData pDef = .ok value) →
            ∃ value, confirmOutcome env start inputData pDef = .ok value) := by
  have hcourse := @execute_course _ V E _ env tccDef start inputData
  constructor
  · intro h
    obtain ⟨ctx, failed, hended⟩ := h
    rw [hended] at hcourse
    exact hcourse.of_succeeded
  · intro h
    obtain ⟨⟨ctx, hended⟩, _⟩ := hcourse.committed_of_go h
    exact ⟨ctx, none, hended⟩

theorem phaseOutcome_ok_iff (hreturn : MethodsReturn env)
    {phase : TccPhase} {pDef : ParticipantDefinition ι}
    {ctx : TccContext ι V} {inputData : Option V} :
    (∃ value, phaseOutcome env phase pDef ctx inputData = .ok value) ↔
      ∃ kwargs, env.buildCoro phase pDef ctx inputData = .ok kwargs := by
  have htries := @phaseQueries_tries _ V E _ env inputData phase pDef ctx
  constructor
  · intro hok
    obtain ⟨attempt, timeoutMs, prepared, value, hmem, hanswer⟩ :=
      htries.returned_iff.mpr ⟨rfl, rfl, hok⟩
    have hprepared := (htries.mem_invoke hmem).2.2
    cases hbuild : env.buildCoro phase pDef ctx inputData with
    | ok kwargs => exact ⟨kwargs, rfl⟩
    | error error =>
      rw [hprepared, hbuild] at hanswer
      cases hanswer
  · intro h
    obtain ⟨kwargs, hkwargs⟩ := h
    rw [hkwargs] at htries
    obtain ⟨value, hvalue⟩ := hreturn phase pDef.id 1 (TccRun.timeoutMs phase pDef) kwargs
    have hreturned : Returned env phase pDef.id (phaseQueries env phase pDef ctx inputData) :=
      ⟨1, _, _, value, htries.first_mem, hvalue⟩
    exact (htries.returned_iff.mp hreturned).2.2

/-- What an accepted bean still needs for its transactions to succeed: the
arguments of every TRY resolve (for an optional participant it is enough that
the caller is not cancelled while the TRY is retried), and every participant
which can be tried has a confirm method whose arguments resolve. -/
def Executable (env : TccEnvironment ι V E) (tccDef : TccDefinition ι)
    (start : TccContext ι V) (inputData : Option V) : Prop :=
  ∀ pDef ∈ tccDef.participantList, ∀ tryMethod, pDef.tryMethod = some tryMethod →
    ((∃ kwargs, env.resolve tryMethod start inputData (some pDef.id) = .ok kwargs) ∨
      (pDef.optional = true ∧ tryOutcome env start inputData pDef ≠ .error .cancelled)) ∧
    ((∃ kwargs, env.resolve tryMethod start inputData (some pDef.id) = .ok kwargs) →
      ∃ confirmMethod, pDef.confirmMethod = some confirmMethod ∧
        ∃ kwargs, env.resolve confirmMethod
          (reserve env start inputData start pDef) none (some pDef.id) = .ok kwargs)

theorem tryStops_eq_false_iff {start : TccContext ι V}
    {inputData : Option V} {pDef : ParticipantDefinition ι} :
    tryStops env start inputData pDef = false ↔
      (∃ value, tryOutcome env start inputData pDef = .ok value) ∨ (pDef.optional = true ∧
          tryOutcome env start inputData pDef ≠ .error .cancelled) := by
  unfold tryStops
  cases houtcome : tryOutcome env start inputData pDef with
  | ok value => simp
  | error fault => cases fault <;> simp

/-- When the declared methods return, a transaction of an accepted bean
succeeds exactly when the ports return and every participant can be tried and
confirmed. -/
theorem registered_succeeds_iff (env : TccEnvironment ι V E)
    (registry : TccRegistry ι) {registry' : TccRegistry ι}
    {bean : TccBean ι} {tccDef : TccDefinition ι}
    (hregister : registry.registerFromBean bean = .ok (registry', tccDef))
    (hreturn : MethodsReturn env) (request : TccRequest V) :
    (∃ result, (registry'.execute env tccDef.name request).outcome
        env.answer = .ok result ∧ result.success = true) ↔
      PortsReturn env ∧ Executable env tccDef (request.context tccDef) request.inputData := by
  obtain ⟨htry, hget⟩ := TccRegistry.registerFromBean_spec hregister
  unfold TccRegistry.execute
  rw [hget, executeTcc_succeeds_iff, execute_succeeds_iff]
  apply and_congr_right
  intro _
  apply forall_congr'
  intro pDef
  apply forall_congr'
  intro hmem
  obtain ⟨tryMethod, htryMethod⟩ := Option.isSome_iff_exists.mp (htry pDef hmem)
  have htryOk : (∃ value, tryOutcome env (request.context tccDef)
      request.inputData pDef = .ok value) ↔
      ∃ kwargs, env.resolve tryMethod (request.context tccDef)
        request.inputData (some pDef.id) = .ok kwargs := by
    have hiff := @phaseOutcome_ok_iff _ V E _ env hreturn .tryPhase pDef
      (request.context tccDef) request.inputData
    simpa [tryOutcome, TccEnvironment.buildCoro, TccEnvironment.invokeTry,
      TccEnvironment.preparePhase, ParticipantDefinition.phaseMethod,
      htryMethod] using hiff
  have hconfirmOk : (∃ value, confirmOutcome env (request.context tccDef)
      request.inputData pDef = .ok value) ↔
      ∃ confirmMethod, pDef.confirmMethod = some confirmMethod ∧
        ∃ kwargs, env.resolve confirmMethod
          (reserve env (request.context tccDef) request.inputData
            (request.context tccDef) pDef) none (some pDef.id) = .ok kwargs := by
    have hiff := @phaseOutcome_ok_iff _ V E _ env hreturn .confirm pDef
      (reserve env (request.context tccDef) request.inputData
        (request.context tccDef) pDef) none
    cases hmethod : pDef.confirmMethod with
    | none =>
      simpa [confirmOutcome, TccEnvironment.buildCoro,
        TccEnvironment.invokeConfirm, TccEnvironment.preparePhase,
        ParticipantDefinition.phaseMethod, hmethod] using hiff
    | some confirmMethod =>
      simpa [confirmOutcome, TccEnvironment.buildCoro,
        TccEnvironment.invokeConfirm, TccEnvironment.preparePhase,
        ParticipantDefinition.phaseMethod, hmethod] using hiff
  rw [tryStops_eq_false_iff, htryOk, hconfirmOk]
  constructor
  · intro h method hmethod
    cases htryMethod.symm.trans hmethod
    exact h
  · intro h
    exact h tryMethod htryMethod

end Succeeds

end Registration

/-! ## Beans with one participant -/

def decoratedTry : PhaseMethod :=
  { PhaseMethod.nullary "do_try" with tryMeta := some PhaseMeta.empty }

def decoratedConfirm : PhaseMethod :=
  { PhaseMethod.nullary "do_confirm" with
    confirmMeta := some PhaseMeta.empty }

def singleBean (methods : Dict String PhaseMethod) : TccBean ℕ where
  qualname := "Single"
  tccMeta := some ⟨"single", 0, false, 0, 0⟩
  attributes :=
    Dict.empty.set "Participant" (some ⟨some ⟨0, 0, 0, false⟩, methods⟩)

theorem methodsReturn_obliging : MethodsReturn (TccEnvironment.obliging () :
      TccEnvironment ℕ Unit Unit) := by
  intro phase participant attempt timeoutMs kwargs
  refine ⟨none, ?_⟩
  simp [TccEnvironment.answer, TccEnvironment.obliging, TccEnvironment.methodReply]

theorem registered_succeeds_iff_single : ∃ registry tccDef,
      TccRegistry.registerFromBean Dict.empty (singleBean
        ((Dict.empty.set "do_confirm" decoratedConfirm).set "do_try"
          decoratedTry)) = .ok (registry, tccDef) ∧
      ∃ result, (TccRegistry.execute registry (TccEnvironment.obliging () :
          TccEnvironment ℕ Unit Unit) tccDef.name
          ⟨"1", Dict.empty, none⟩).outcome (TccEnvironment.obliging ()).answer = .ok result ∧
        result.success = true := by
  refine ⟨_, _, rfl, ?_⟩
  refine (@registered_succeeds_iff _ Unit Unit _ (TccEnvironment.obliging ())
    Dict.empty _ (singleBean ((Dict.empty.set "do_confirm"
      decoratedConfirm).set "do_try" decoratedTry)) _ rfl
    methodsReturn_obliging ⟨"1", Dict.empty, none⟩).mpr ?_
  constructor
  · exact ⟨⟨none, rfl⟩, ⟨none, rfl⟩, ⟨none, rfl⟩, ⟨none, rfl⟩⟩
  · intro pDef hmem tryMethod htryMethod
    have hsame : pDef = ⟨0, 0, 0, false, some decoratedTry,
        some decoratedConfirm, none⟩ := mem_singleton.mp hmem
    rw [hsame] at htryMethod ⊢
    cases htryMethod
    exact ⟨Or.inl ⟨Dict.empty, rfl⟩, fun _ => ⟨decoratedConfirm, rfl, Dict.empty, rfl⟩⟩

/-- A bean whose participant has only a try method is accepted, and although
the method returns its transaction fails. -/
theorem accepted_without_confirm_fails : ∃ registry tccDef,
      TccRegistry.registerFromBean Dict.empty (singleBean
        (Dict.empty.set "do_try" decoratedTry)) = .ok (registry, tccDef) ∧
      MethodsReturn (TccEnvironment.obliging () : TccEnvironment ℕ Unit Unit) ∧
      ∃ result, (TccRegistry.execute registry (TccEnvironment.obliging () :
          TccEnvironment ℕ Unit Unit) tccDef.name
          ⟨"1", Dict.empty, none⟩).outcome (TccEnvironment.obliging ()).answer = .ok result ∧
        result.success = false :=
  ⟨_, _, rfl, methodsReturn_obliging, _, rfl, rfl⟩

end PyFly.Tcc
