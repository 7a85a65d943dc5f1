import PyFly.TccAttempts
import PyFly.Library.Rounds

/-!
# The course of a TCC

What the methods of a participant do depends on the participant alone: a
method can only see the input and its own TRY result.  The three loops
therefore run through the participants up to the first whose outcome stops
them, and `execute` takes one of five courses.
-/

namespace PyFly.Tcc

open Library Transactional List

variable {ι V E : Type} [DecidableEq ι]

namespace TccEnvironment

variable {env : TccEnvironment ι V E} {ctx ctx' : TccContext ι V}
variable {participant : ι} {inputData : Option V}

theorem resolveExtras_congr (h : ctx.getTryResult participant = ctx'.getTryResult participant)
    (extras : List Marker) :
    env.resolveExtras ctx inputData (some participant) extras =
      env.resolveExtras ctx' inputData (some participant) extras := by
  induction extras with
  | nil => rfl
  | cons marker rest ih =>
    have hmarker : env.resolveMarker ctx inputData (some participant)
        marker = env.resolveMarker ctx' inputData (some participant)
          marker := by
      cases marker with
      | input key => cases key <;> rfl
      | fromTry => simp [resolveMarker, h]
      | unrecognised => rfl
    rw [resolveExtras, resolveExtras, hmarker, ih]

theorem resolveParameter_congr
    (h : ctx.getTryResult participant = ctx'.getTryResult participant)
    (name : String) (hint : Hint) :
    env.resolveParameter ctx inputData (some participant) name hint =
      env.resolveParameter ctx' inputData (some participant) name hint := by
  cases hint with
  | tccContext => rfl
  | unmarked => rfl
  | annotated baseIsContext extras =>
    cases baseIsContext with
    | true => rfl
    | false =>
      rw [resolveParameter, resolveParameter, resolveExtras_congr h]

theorem resolve_congr (h : ctx.getTryResult participant = ctx'.getTryResult participant)
    (method : PhaseMethod) :
    env.resolve method ctx inputData (some participant) =
      env.resolve method ctx' inputData (some participant) := by
  have hloop : ∀ (parameters : List Parameter) (resolved : Dict String (Argument V)),
      env.resolveParameters method ctx inputData (some participant) parameters resolved =
        env.resolveParameters method ctx' inputData (some participant) parameters resolved := by
    intro parameters
    induction parameters with
    | nil =>
      intro resolved
      rfl
    | cons parameter rest ih =>
      intro resolved
      rw [resolveParameters, resolveParameters]
      by_cases hself : parameter.name = "self"
      · rw [if_pos hself, if_pos hself, ih]
      · rw [if_neg hself, if_neg hself]
        cases parameter.hint with
        | none => rfl
        | some hint =>
          dsimp only
          rw [resolveParameter_congr h]
          simp only [ih]
  unfold resolve
  rw [hloop]

theorem buildCoro_congr {pDef : ParticipantDefinition ι}
    (h : ctx.getTryResult pDef.id = ctx'.getTryResult pDef.id)
    (phase : TccPhase) :
    env.buildCoro phase pDef ctx inputData = env.buildCoro phase pDef ctx' inputData := by
  have hphase : ∀ (phase : TccPhase) (inputData : Option V),
      env.preparePhase phase pDef ctx inputData =
        env.preparePhase phase pDef ctx' inputData := by
    intro phase inputData
    unfold preparePhase
    cases pDef.phaseMethod phase with
    | none => rfl
    | some method => exact resolve_congr h method
  cases phase with
  | tryPhase => exact hphase .tryPhase inputData
  | confirm => exact hphase .confirm none
  | cancel => exact hphase .cancel none

end TccEnvironment

namespace TccRun

theorem invokeWithRetryAndTimeout_congr (env : TccEnvironment ι V E)
    {ctx ctx' : TccContext ι V} {pDef : ParticipantDefinition ι}
    (h : ctx.getTryResult pDef.id = ctx'.getTryResult pDef.id)
    (phase : TccPhase) (inputData : Option V) :
    invokeWithRetryAndTimeout env phase pDef ctx inputData =
      invokeWithRetryAndTimeout env phase pDef ctx' inputData := by
  unfold invokeWithRetryAndTimeout
  rw [TccEnvironment.buildCoro_congr h]

end TccRun

/-! ## The outcomes of the phases of a participant -/

def TccReply.isCancelled : TccReply V E → Bool
  | .error .cancelled => true
  | _ => false

section Outcomes

variable (env : TccEnvironment ι V E) (start : TccContext ι V)
variable (inputData : Option V)

def phaseOutcome (phase : TccPhase) (pDef : ParticipantDefinition ι)
    (ctx : TccContext ι V) (inputData : Option V) : TccReply V E :=
  (TccRun.invokeWithRetryAndTimeout env phase pDef ctx inputData).outcome env.answer

def phaseQueries (phase : TccPhase) (pDef : ParticipantDefinition ι)
    (ctx : TccContext ι V) (inputData : Option V) : List (TccQuery ι V E) :=
  (TccRun.invokeWithRetryAndTimeout env phase pDef ctx inputData).queries env.answer

def tryOutcome (pDef : ParticipantDefinition ι) : TccReply V E :=
  phaseOutcome env .tryPhase pDef start inputData

def reserve (ctx : TccContext ι V) (pDef : ParticipantDefinition ι) : TccContext ι V :=
  match tryOutcome env start inputData pDef with
  | .ok value =>
    (ctx.setTryResult pDef.id value).setParticipantStatus pDef.id .tryPhase
  | .error _ => ctx

def confirmOutcome (pDef : ParticipantDefinition ι) : TccReply V E :=
  phaseOutcome env .confirm pDef (reserve env start inputData start pDef) none

def cancelOutcome (pDef : ParticipantDefinition ι) : TccReply V E :=
  phaseOutcome env .cancel pDef (reserve env start inputData start pDef) none

def tryStops (pDef : ParticipantDefinition ι) : Bool :=
  match tryOutcome env start inputData pDef with
  | .ok _ => false
  | .error (.exception _) => !pDef.optional
  | .error .cancelled => true

def confirmStops (pDef : ParticipantDefinition ι) : Bool :=
  !(confirmOutcome env start inputData pDef).isOk

def cancelStops (pDef : ParticipantDefinition ι) : Bool :=
  (cancelOutcome env start inputData pDef).isCancelled

def triedOf (participants : List (ParticipantDefinition ι)) : List (ParticipantDefinition ι) :=
  (participants.takeWhile fun pDef => !tryStops env start inputData pDef)
    |>.filter fun pDef => (tryOutcome env start inputData pDef).isOk

def tryTrace (participants : List (ParticipantDefinition ι)) : List (TccQuery ι V E) :=
  (takeThrough (tryStops env start inputData) participants).flatMap
    fun pDef => phaseQueries env .tryPhase pDef start inputData

def confirmTrace (tried : List (ParticipantDefinition ι)) : List (TccQuery ι V E) :=
  (takeThrough (confirmStops env start inputData) tried).flatMap
    fun pDef => phaseQueries env .confirm pDef (reserve env start inputData start pDef) none

def cancellable (tried : List (ParticipantDefinition ι)) : List (ParticipantDefinition ι) :=
  tried.reverse.filter fun pDef => pDef.cancelMethod.isSome

def cancelTrace (tried : List (ParticipantDefinition ι)) : List (TccQuery ι V E) :=
  (takeThrough (cancelStops env start inputData) (cancellable tried)).flatMap
    fun pDef => phaseQueries env .cancel pDef (reserve env start inputData start pDef) none

end Outcomes

section Loops

variable {env : TccEnvironment ι V E} {start : TccContext ι V}
variable {inputData : Option V}

variable {pDef : ParticipantDefinition ι}

theorem getTryResult_reserve_of_ne {ctx : TccContext ι V} {participant : ι}
    (hne : participant ≠ pDef.id) :
    (reserve env start inputData ctx pDef).getTryResult participant =
      ctx.getTryResult participant := by
  unfold reserve
  cases tryOutcome env start inputData pDef with
  | error fault => rfl
  | ok value => exact ctx.getTryResult_setTryResult_of_ne hne value

theorem getTryResult_reserve {ctx ctx' : TccContext ι V} {value : Option V}
    (hok : tryOutcome env start inputData pDef = .ok value) :
    (reserve env start inputData ctx pDef).getTryResult pDef.id =
      (reserve env start inputData ctx' pDef).getTryResult pDef.id := by
  unfold reserve
  rw [hok]
  exact (ctx.getTryResult_setTryResult_self pDef.id value).trans
    (ctx'.getTryResult_setTryResult_self pDef.id value).symm

theorem tryParticipants_spec (participants : List (ParticipantDefinition ι))
    (hnodup : (participants.map ParticipantDefinition.id).Nodup)
    (ctx : TccContext ι V) (triedIds : List ι)
    (hfresh : ∀ pDef ∈ participants, ctx.getTryResult pDef.id = start.getTryResult pDef.id) :
    (TccRun.tryParticipants env inputData participants ctx triedIds).queries env.answer =
      tryTrace env start inputData participants ∧
    (TccRun.tryParticipants env inputData participants ctx triedIds).outcome env.answer =
      (let reached := participants.takeWhile fun pDef =>
          !tryStops env start inputData pDef
        let ctx' := reached.foldl (reserve env start inputData) ctx
        let triedIds' := triedIds ++
          (triedOf env start inputData participants).map ParticipantDefinition.id
        match participants.find? (tryStops env start inputData) with
        | none => .ok (ctx', triedIds', none)
        | some pDef =>
          if (tryOutcome env start inputData pDef).isCancelled then
            .error .cancelled
          else .ok (ctx', triedIds', some pDef.id)) := by
  induction participants generalizing ctx triedIds with
  | nil =>
    refine ⟨rfl, ?_⟩
    simp [TccRun.tryParticipants, triedOf]
  | cons pDef rest ih =>
    have hpairs := nodup_cons.mp hnodup
    have hsame : TccRun.invokeWithRetryAndTimeout env .tryPhase pDef ctx
        inputData = TccRun.invokeWithRetryAndTimeout env .tryPhase pDef start inputData :=
      TccRun.invokeWithRetryAndTimeout_congr env (hfresh pDef mem_cons_self) .tryPhase inputData
    have hfreshRest : ∀ other ∈ rest, ctx.getTryResult other.id = start.getTryResult other.id :=
      fun other hmem => hfresh other (mem_cons_of_mem _ hmem)
    have hne : ∀ other ∈ rest, other.id ≠ pDef.id := by
      intro other hmem heq
      exact hpairs.1 (heq ▸ mem_map_of_mem hmem)
    rw [TccRun.tryParticipants, hsame]
    cases houtcome : tryOutcome env start inputData pDef with
    | ok value =>
      have hgo : tryStops env start inputData pDef = false := by
        simp [tryStops, houtcome]
      have hvalue := TccRun.outcome_exceptException_of_ok houtcome
      have hreserve : reserve env start inputData ctx pDef =
          (ctx.setTryResult pDef.id value).setParticipantStatus pDef.id .tryPhase := by
        simp [reserve, houtcome]
      have hrest := ih hpairs.2 (reserve env start inputData ctx pDef) (triedIds ++ [pDef.id])
        (fun other hmem =>
          (getTryResult_reserve_of_ne (hne other hmem)).trans (hfreshRest other hmem))
      rw [hreserve] at hrest
      rw [Async.queries_bind_of_ok _ hvalue, Async.outcome_bind_of_ok _ hvalue,
        TccRun.queries_exceptException]
      constructor
      · rw [hrest.1]
        simp [tryTrace, takeThrough_cons_of_go hgo, phaseQueries]
      · rw [hrest.2]
        simp [triedOf, hgo, houtcome, hreserve, Except.isOk, Except.toBool]
    | error fault =>
      cases fault with
      | cancelled =>
        have hstop : tryStops env start inputData pDef = true := by
          simp [tryStops, houtcome]
        have hfault :=
          TccRun.outcome_exceptException_of_cancelled houtcome
        rw [Async.queries_bind_of_error _ hfault, Async.outcome_bind_of_error _ hfault,
          TccRun.queries_exceptException]
        constructor
        · simp [tryTrace, takeThrough_cons_of_stop hstop, phaseQueries]
        · simp [hstop, houtcome, TccReply.isCancelled]
      | exception error =>
        have hvalue :=
          TccRun.outcome_exceptException_of_exception houtcome
        rw [Async.queries_bind_of_ok _ hvalue, Async.outcome_bind_of_ok _ hvalue,
          TccRun.queries_exceptException]
        dsimp only
        cases hoptional : pDef.optional with
        | true =>
          have hgo : tryStops env start inputData pDef = false := by
            simp [tryStops, houtcome, hoptional]
          have hreserve : reserve env start inputData ctx pDef = ctx := by
            simp [reserve, houtcome]
          have hrest := ih hpairs.2 ctx triedIds hfreshRest
          rw [if_pos rfl]
          constructor
          · rw [hrest.1]
            simp [tryTrace, takeThrough_cons_of_go hgo, phaseQueries]
          · rw [hrest.2]
            simp [triedOf, hgo, houtcome, hreserve, Except.isOk, Except.toBool]
        | false =>
          have hstop : tryStops env start inputData pDef = true := by
            simp [tryStops, houtcome, hoptional]
          rw [if_neg (by simp)]
          constructor
          · simp [tryTrace, takeThrough_cons_of_stop hstop, phaseQueries]
          · simp [triedOf, hstop, houtcome, TccReply.isCancelled]

def confirmAll (ctx : TccContext ι V)
    (confirmed : List (ParticipantDefinition ι)) : TccContext ι V :=
  confirmed.foldl (fun ctx pDef => ctx.setParticipantStatus pDef.id .confirm) ctx

theorem confirmParticipants_spec (triedIds : List ι)
    (participants : List (ParticipantDefinition ι)) (ctx : TccContext ι V)
    (hreserved : ∀ pDef ∈ participants, pDef.id ∈ triedIds → ctx.getTryResult pDef.id =
        (reserve env start inputData start pDef).getTryResult pDef.id) :
    let tried := participants.filter fun pDef => pDef.id ∈ triedIds
    (TccRun.confirmParticipants env triedIds participants ctx).queries
        env.answer = confirmTrace env start inputData tried ∧
    (TccRun.confirmParticipants env triedIds participants ctx).outcome env.answer =
      (let ctx' := confirmAll ctx (tried.takeWhile fun pDef =>
          !confirmStops env start inputData pDef)
       match tried.find? (confirmStops env start inputData) with
        | none => .ok (ctx', none)
        | some pDef =>
          if (confirmOutcome env start inputData pDef).isCancelled then
            .error .cancelled
          else .ok (ctx', some pDef.id)) := by
  induction participants generalizing ctx with
  | nil => exact ⟨rfl, rfl⟩
  | cons pDef rest ih =>
    intro tried
    have hreservedRest : ∀ other ∈ rest, other.id ∈ triedIds → ctx.getTryResult other.id =
          (reserve env start inputData start other).getTryResult other.id :=
      fun other hmem => hreserved other (mem_cons_of_mem _ hmem)
    by_cases hmem : pDef.id ∈ triedIds
    · have htried : tried = pDef :: rest.filter fun pDef => pDef.id ∈ triedIds := by
        simp [tried, hmem]
      have hsame : TccRun.invokeWithRetryAndTimeout env .confirm pDef ctx
          none = TccRun.invokeWithRetryAndTimeout env .confirm pDef
            (reserve env start inputData start pDef) none :=
        TccRun.invokeWithRetryAndTimeout_congr env
          (hreserved pDef mem_cons_self hmem) .confirm none
      rw [TccRun.confirmParticipants, if_neg (not_not.mpr hmem), hsame, htried]
      cases houtcome : confirmOutcome env start inputData pDef with
      | ok value =>
        have hgo : confirmStops env start inputData pDef = false := by
          simp [confirmStops, houtcome, Except.isOk, Except.toBool]
        have hvalue := TccRun.outcome_exceptException_of_ok houtcome
        have hrest := ih (ctx.setParticipantStatus pDef.id .confirm) hreservedRest
        rw [Async.queries_bind_of_ok _ hvalue, Async.outcome_bind_of_ok _ hvalue,
          TccRun.queries_exceptException]
        constructor
        · rw [hrest.1]
          simp [confirmTrace, takeThrough_cons_of_go hgo, phaseQueries]
        · rw [hrest.2]
          simp [hgo, confirmAll]
      | error fault =>
        have hstop : confirmStops env start inputData pDef = true := by
          simp [confirmStops, houtcome, Except.isOk, Except.toBool]
        have htrace : phaseQueries env .confirm pDef
            (reserve env start inputData start pDef) none =
          confirmTrace env start inputData (pDef ::
            rest.filter fun pDef => pDef.id ∈ triedIds) := by
          simp [confirmTrace, takeThrough_cons_of_stop hstop]
        cases fault with
        | cancelled =>
          have hfault :=
            TccRun.outcome_exceptException_of_cancelled houtcome
          rw [Async.queries_bind_of_error _ hfault, Async.outcome_bind_of_error _ hfault,
            TccRun.queries_exceptException]
          refine ⟨htrace, ?_⟩
          simp [hstop, houtcome, TccReply.isCancelled]
        | exception error =>
          have hvalue :=
            TccRun.outcome_exceptException_of_exception houtcome
          rw [Async.queries_bind_of_ok _ hvalue, Async.outcome_bind_of_ok _ hvalue,
            TccRun.queries_exceptException]
          refine ⟨(append_nil _).trans htrace, ?_⟩
          simp [hstop, houtcome, TccReply.isCancelled, confirmAll]
    · have htried : tried = rest.filter fun pDef => pDef.id ∈ triedIds := by
        simp [tried, hmem]
      rw [TccRun.confirmParticipants, if_pos hmem, htried]
      exact ih ctx hreservedRest

def cancelAll (env : TccEnvironment ι V E) (start : TccContext ι V)
    (inputData : Option V) (ctx : TccContext ι V)
    (cancelled : List (ParticipantDefinition ι)) : TccContext ι V :=
  cancelled.foldl
    (fun ctx pDef =>
      if (cancelOutcome env start inputData pDef).isOk then
        ctx.setParticipantStatus pDef.id .cancel
      else ctx) ctx

theorem cancelLoop_spec {tccDef : TccDefinition ι} (pDefs : List (ParticipantDefinition ι))
    (hfiled : ∀ pDef ∈ pDefs, pDef ∈ tccDef.participantList)
    (ctx : TccContext ι V)
    (hreserved : ∀ pDef ∈ pDefs, ctx.getTryResult pDef.id =
      (reserve env start inputData start pDef).getTryResult pDef.id) :
    let cancelled := pDefs.filter fun pDef => pDef.cancelMethod.isSome
    (TccRun.cancelLoop env tccDef (pDefs.map ParticipantDefinition.id) ctx).queries env.answer =
      ((takeThrough (cancelStops env start inputData) cancelled).flatMap
        fun pDef => phaseQueries env .cancel pDef
          (reserve env start inputData start pDef) none) ∧
    (TccRun.cancelLoop env tccDef (pDefs.map ParticipantDefinition.id) ctx).outcome env.answer =
      match cancelled.find? (cancelStops env start inputData) with
      | none => .ok (cancelAll env start inputData ctx cancelled, none)
      | some _ => .error .cancelled := by
  induction pDefs generalizing ctx with
  | nil => exact ⟨rfl, rfl⟩
  | cons pDef rest ih =>
    intro cancelled
    have hfiledRest : ∀ other ∈ rest, other ∈ tccDef.participantList :=
      fun other hmem => hfiled other (mem_cons_of_mem _ hmem)
    have hreservedRest : ∀ other ∈ rest, ctx.getTryResult other.id =
        (reserve env start inputData start other).getTryResult other.id :=
      fun other hmem => hreserved other (mem_cons_of_mem _ hmem)
    have hget := TccDefinition.get?_participants (hfiled pDef mem_cons_self)
    rw [map_cons, TccRun.cancelLoop, hget]
    dsimp only
    cases hmethod : pDef.cancelMethod with
    | none =>
      have hskip : cancelled = rest.filter fun pDef => pDef.cancelMethod.isSome := by
        simp [cancelled, hmethod]
      rw [hskip]
      exact ih hfiledRest ctx hreservedRest
    | some method =>
      have hkeep : cancelled = pDef :: rest.filter fun pDef => pDef.cancelMethod.isSome := by
        simp [cancelled, hmethod]
      have hsame : TccRun.invokeWithRetryAndTimeout env .cancel pDef ctx
          none = TccRun.invokeWithRetryAndTimeout env .cancel pDef
            (reserve env start inputData start pDef) none :=
        TccRun.invokeWithRetryAndTimeout_congr env (hreserved pDef mem_cons_self) .cancel none
      rw [if_neg (by simp), hsame, hkeep]
      cases houtcome : cancelOutcome env start inputData pDef with
      | ok value =>
        have hgo : cancelStops env start inputData pDef = false := by
          simp [cancelStops, houtcome, TccReply.isCancelled]
        have hvalue := TccRun.outcome_exceptException_of_ok houtcome
        have hrest := ih hfiledRest (ctx.setParticipantStatus pDef.id .cancel) hreservedRest
        rw [Async.queries_bind_of_ok _ hvalue, Async.outcome_bind_of_ok _ hvalue,
          TccRun.queries_exceptException]
        constructor
        · rw [hrest.1]
          simp [takeThrough_cons_of_go hgo, phaseQueries]
        · rw [hrest.2]
          simp [hgo, cancelAll, houtcome, Except.isOk, Except.toBool]
      | error fault =>
        cases fault with
        | cancelled =>
          have hstop : cancelStops env start inputData pDef =
              true := by
            simp [cancelStops, houtcome, TccReply.isCancelled]
          have hfault :=
            TccRun.outcome_exceptException_of_cancelled houtcome
          rw [Async.queries_bind_of_error _ hfault, Async.outcome_bind_of_error _ hfault,
            TccRun.queries_exceptException]
          constructor
          · simp [takeThrough_cons_of_stop hstop, phaseQueries]
          · simp [hstop]
        | exception error =>
          have hgo : cancelStops env start inputData pDef =
              false := by
            simp [cancelStops, houtcome, TccReply.isCancelled]
          have hvalue :=
            TccRun.outcome_exceptException_of_exception houtcome
          have hrest := ih hfiledRest ctx hreservedRest
          rw [Async.queries_bind_of_ok _ hvalue, Async.outcome_bind_of_ok _ hvalue,
            TccRun.queries_exceptException]
          constructor
          · rw [hrest.1]
            simp [takeThrough_cons_of_go hgo, phaseQueries]
          · rw [hrest.2]
            simp [hgo, cancelAll, houtcome, Except.isOk, Except.toBool]

theorem getTryResult_foldl_reserve (reached : List (ParticipantDefinition ι))
    (hnodup : (reached.map ParticipantDefinition.id).Nodup)
    (hmem : pDef ∈ reached) {value : Option V}
    (hok : tryOutcome env start inputData pDef = .ok value)
    (ctx : TccContext ι V) :
    (reached.foldl (reserve env start inputData) ctx).getTryResult pDef.id =
      (reserve env start inputData start pDef).getTryResult pDef.id := by
  induction reached generalizing ctx with
  | nil => cases hmem
  | cons first rest ih =>
    have hpairs := nodup_cons.mp hnodup
    rw [foldl_cons]
    rcases mem_cons.mp hmem with hhead | htail
    · have hkept : ∀ (others : List (ParticipantDefinition ι)),
          pDef.id ∉ others.map ParticipantDefinition.id →
          ∀ ctx : TccContext ι V, (others.foldl (reserve env start inputData)
              ctx).getTryResult pDef.id = ctx.getTryResult pDef.id := by
        intro others
        induction others with
        | nil =>
          intro _ ctx
          rfl
        | cons other others ihKept =>
          intro hnotMem ctx
          have hne : pDef.id ≠ other.id := by
            intro heq
            exact hnotMem (heq ▸ mem_cons_self)
          rw [foldl_cons, ihKept fun h =>
            hnotMem (mem_cons_of_mem _ h)]
          exact getTryResult_reserve_of_ne hne
      rw [hkept rest (hhead ▸ hpairs.1), ← hhead]
      exact getTryResult_reserve hok
    · exact ih hpairs.2 htail _

omit [DecidableEq ι] in
theorem triedOf_sublist [DecidableEq ι] (participants : List (ParticipantDefinition ι)) :
    List.Sublist (triedOf env start inputData participants) participants :=
  filter_sublist.trans ( takeWhile_prefix _).sublist

theorem tryOutcome_of_mem_triedOf {participants : List (ParticipantDefinition ι)}
    (hmem : pDef ∈ triedOf env start inputData participants) :
    ∃ value, tryOutcome env start inputData pDef = .ok value := by
  have hok := (mem_filter.mp hmem).2
  cases houtcome : tryOutcome env start inputData pDef with
  | ok value => exact ⟨value, rfl⟩
  | error fault => simp [houtcome, Except.isOk, Except.toBool] at hok

end Loops

section Course

variable (env : TccEnvironment ι V E) (tccDef : TccDefinition ι)
variable (start : TccContext ι V) (inputData : Option V)

def afterTries : TccContext ι V :=
  (tccDef.participantList.takeWhile fun pDef =>
    !tryStops env start inputData pDef).foldl
      (reserve env start inputData) (start.setPhase .tryPhase)

def triedParticipants : List (ParticipantDefinition ι) :=
  triedOf env start inputData tccDef.participantList

def afterConfirms : TccContext ι V :=
  confirmAll ((afterTries env tccDef start inputData).setPhase .confirm)
    ((triedParticipants env tccDef start inputData).takeWhile fun pDef =>
      !confirmStops env start inputData pDef)

def cancelEnd (ctx : TccContext ι V) (failed : ι) :
    Except (Fault E) (TccContext ι V × Except E (Bool × Option ι)) :=
  match (cancellable (triedParticipants env tccDef start inputData)).find?
    (cancelStops env start inputData) with
  | some _ => .error .cancelled
  | none =>
    .ok (cancelAll env start inputData (ctx.setPhase .cancel)
        (cancellable (triedParticipants env tccDef start inputData)),
      .ok (false, some failed))

/-- The five courses of `execute`. -/
inductive Course :
    List (TccQuery ι V E) →
    Except (Fault E) (TccContext ι V × Except E (Bool × Option ι)) → Prop
  | tryInterrupted (pDef : ParticipantDefinition ι) (hfind : tccDef.participantList.find?
        (tryStops env start inputData) = some pDef)
      (hcancelled : tryOutcome env start inputData pDef = .error .cancelled) :
      Course (tryTrace env start inputData tccDef.participantList) (.error .cancelled)
  | tryFailed (pDef : ParticipantDefinition ι) (error : E)
      (hfind : tccDef.participantList.find? (tryStops env start inputData) = some pDef)
      (hfailed : tryOutcome env start inputData pDef = .error (.exception error)) :
      Course (tryTrace env start inputData tccDef.participantList ++
          cancelTrace env start inputData (triedParticipants env tccDef start inputData))
        (cancelEnd env tccDef start inputData (afterTries env tccDef start inputData) pDef.id)
  | confirmInterrupted (pDef : ParticipantDefinition ι)
      (htried : tccDef.participantList.find? (tryStops env start inputData) = none)
      (hfind : (triedParticipants env tccDef start inputData).find?
        (confirmStops env start inputData) = some pDef)
      (hcancelled : confirmOutcome env start inputData pDef = .error .cancelled) :
      Course (tryTrace env start inputData tccDef.participantList ++
          confirmTrace env start inputData (triedParticipants env tccDef start inputData))
        (.error .cancelled)
  | confirmFailed (pDef : ParticipantDefinition ι) (error : E)
      (htried : tccDef.participantList.find? (tryStops env start inputData) = none)
      (hfind : (triedParticipants env tccDef start inputData).find?
        (confirmStops env start inputData) = some pDef)
      (hfailed : confirmOutcome env start inputData pDef = .error (.exception error)) :
      Course (tryTrace env start inputData tccDef.participantList ++
          (confirmTrace env start inputData (triedParticipants env tccDef start inputData) ++
            cancelTrace env start inputData (triedParticipants env tccDef start inputData)))
        (cancelEnd env tccDef start inputData
          (afterConfirms env tccDef start inputData) pDef.id)
  | committed (htried : tccDef.participantList.find? (tryStops env start inputData) = none)
      (hconfirmed : (triedParticipants env tccDef start inputData).find?
        (confirmStops env start inputData) = none) :
      Course (tryTrace env start inputData tccDef.participantList ++
          confirmTrace env start inputData (triedParticipants env tccDef start inputData))
        (.ok (afterConfirms env tccDef start inputData, .ok (true, none)))

variable {env tccDef start inputData}

theorem getTryResult_afterTries {pDef : ParticipantDefinition ι}
    (hmem : pDef ∈ triedParticipants env tccDef start inputData) :
    (afterTries env tccDef start inputData).getTryResult pDef.id =
      (reserve env start inputData start pDef).getTryResult pDef.id := by
  obtain ⟨value, hok⟩ := tryOutcome_of_mem_triedOf hmem
  apply getTryResult_foldl_reserve _ _ (mem_filter.mp hmem).1 hok
  exact tccDef.nodup_ids.sublist (( takeWhile_prefix _).sublist.map _)

theorem getTryResult_confirmAll (ctx : TccContext ι V)
    (confirmed : List (ParticipantDefinition ι)) (participant : ι) :
    (confirmAll ctx confirmed).getTryResult participant = ctx.getTryResult participant := by
  induction confirmed generalizing ctx with
  | nil => rfl
  | cons pDef rest ih => exact ih (ctx.setParticipantStatus pDef.id .confirm)

theorem mem_tried_of_id {pDef : ParticipantDefinition ι} (hmem : pDef ∈ tccDef.participantList)
    (hid : pDef.id ∈ (triedParticipants env tccDef start inputData).map
      ParticipantDefinition.id) :
    pDef ∈ triedParticipants env tccDef start inputData := by
  obtain ⟨other, hother, hsame⟩ := mem_map.mp hid
  have heq : other = pDef :=
    inj_on_of_nodup_map tccDef.nodup_ids ((triedOf_sublist _).subset hother) hmem hsame
  exact heq ▸ hother

theorem filter_tried (htried : tccDef.participantList.find?
      (tryStops env start inputData) = none) :
    (tccDef.participantList.filter fun pDef =>
        pDef.id ∈ (triedParticipants env tccDef start inputData).map ParticipantDefinition.id) =
      triedParticipants env tccDef start inputData := by
  have hall : triedParticipants env tccDef start inputData =
      tccDef.participantList.filter fun pDef =>
        (tryOutcome env start inputData pDef).isOk := by
    unfold triedParticipants triedOf
    rw [takeWhile_of_find?_none htried]
  conv_rhs => rw [hall]
  apply filter_congr
  intro pDef hmem
  rw [Bool.eq_iff_iff, decide_eq_true_iff]
  constructor
  · intro hid
    have htriedMem := mem_tried_of_id hmem hid
    exact (mem_filter.mp htriedMem).2
  · intro hok
    apply mem_map_of_mem
    rw [hall]
    exact mem_filter.mpr ⟨hmem, hok⟩

theorem cancelAfter_spec (failed : ι) (ctx : TccContext ι V)
    (hctx : ∀ participant, ctx.getTryResult participant =
      (afterTries env tccDef start inputData).getTryResult participant) :
    (TccRun.cancelAfter env tccDef ((triedParticipants env tccDef start inputData).map
          ParticipantDefinition.id) failed ctx).queries env.answer =
      cancelTrace env start inputData (triedParticipants env tccDef start inputData) ∧
    (TccRun.cancelAfter env tccDef ((triedParticipants env tccDef start inputData).map
          ParticipantDefinition.id) failed ctx).outcome env.answer =
      cancelEnd env tccDef start inputData ctx failed := by
  have hloop := @cancelLoop_spec _ V E _ env start inputData tccDef
    (triedParticipants env tccDef start inputData).reverse
    (fun pDef hmem =>
      (triedOf_sublist _).subset (mem_reverse.mp hmem))
    (ctx.setPhase .cancel)
    (fun pDef hmem =>
      (hctx pDef.id).trans (getTryResult_afterTries (mem_reverse.mp hmem)))
  rw [map_reverse] at hloop
  have hend : (TccRun.cancelLoop env tccDef ((triedParticipants env tccDef start inputData).map
          ParticipantDefinition.id).reverse
        (ctx.setPhase .cancel)).outcome env.answer =
      match (cancellable (triedParticipants env tccDef start
          inputData)).find? (cancelStops env start inputData) with
      | none => .ok (cancelAll env start inputData (ctx.setPhase .cancel)
          (cancellable (triedParticipants env tccDef start inputData)), none)
      | some _ => .error .cancelled := hloop.2
  unfold TccRun.cancelAfter TccRun.cancelParticipants cancelEnd
  cases hfind : (cancellable (triedParticipants env tccDef start
      inputData)).find? (cancelStops env start inputData) with
  | some pDef =>
    rw [hfind] at hend
    rw [Async.queries_bind_of_error _ hend, Async.outcome_bind_of_error _ hend]
    exact ⟨hloop.1, rfl⟩
  | none =>
    rw [hfind] at hend
    rw [Async.queries_bind_of_ok _ hend, Async.outcome_bind_of_ok _ hend]
    exact ⟨(append_nil _).trans hloop.1, rfl⟩

theorem execute_course : Course env tccDef start inputData
      ((TccRun.execute env tccDef start inputData).queries env.answer)
      ((TccRun.execute env tccDef start inputData).outcome env.answer) := by
  obtain ⟨htryQueries, htryOutcome⟩ := @tryParticipants_spec _ V E _ env
    start inputData tccDef.participantList tccDef.nodup_ids
    (start.setPhase .tryPhase) [] (fun _ _ => rfl)
  unfold TccRun.execute
  cases hfind : tccDef.participantList.find? (tryStops env start inputData) with
  | some pDef =>
    rw [hfind] at htryOutcome
    cases houtcome : tryOutcome env start inputData pDef with
    | ok value =>
      have hstops := List.find?_some hfind
      simp [tryStops, houtcome] at hstops
    | error fault =>
      cases fault with
      | cancelled =>
        simp only [houtcome, TccReply.isCancelled, if_true]
          at htryOutcome
        rw [Async.queries_bind_of_error _ htryOutcome,
          Async.outcome_bind_of_error _ htryOutcome, htryQueries]
        exact .tryInterrupted pDef hfind houtcome
      | exception error =>
        simp only [houtcome, TccReply.isCancelled, Bool.false_eq_true,
          if_false, nil_append] at htryOutcome
        rw [Async.queries_bind_of_ok _ htryOutcome,
          Async.outcome_bind_of_ok _ htryOutcome, htryQueries]
        obtain ⟨hqueries, houtcome'⟩ := @cancelAfter_spec _ V E _ env
          tccDef start inputData pDef.id
          (afterTries env tccDef start inputData) (fun _ => rfl)
        have hcourse := Course.tryFailed pDef error hfind houtcome
        rw [← hqueries, ← houtcome'] at hcourse
        exact hcourse
  | none =>
    have hended : (TccRun.tryParticipants env inputData
        tccDef.participantList (start.setPhase .tryPhase) []).outcome env.answer =
        .ok (afterTries env tccDef start inputData,
          (triedParticipants env tccDef start inputData).map
            ParticipantDefinition.id, none) := by
      rw [hfind] at htryOutcome
      exact htryOutcome
    rw [Async.queries_bind_of_ok _ hended, Async.outcome_bind_of_ok _ hended, htryQueries]
    obtain ⟨hconfirmQueries, hconfirmOutcome⟩ := @confirmParticipants_spec
      _ V E _ env start inputData
      ((triedParticipants env tccDef start inputData).map
        ParticipantDefinition.id) tccDef.participantList
      ((afterTries env tccDef start inputData).setPhase .confirm)
      (fun pDef hmem hid =>
        getTryResult_afterTries (mem_tried_of_id hmem hid))
    rw [filter_tried hfind] at hconfirmQueries hconfirmOutcome
    dsimp only
    cases hconfirm : (triedParticipants env tccDef start inputData).find?
        (confirmStops env start inputData) with
    | none =>
      rw [hconfirm] at hconfirmOutcome
      rw [Async.queries_bind_of_ok _ hconfirmOutcome,
        Async.outcome_bind_of_ok _ hconfirmOutcome, hconfirmQueries]
      show Course env tccDef start inputData (_ ++ (_ ++ [])) _
      rw [append_nil]
      exact .committed hfind hconfirm
    | some pDef =>
      rw [hconfirm] at hconfirmOutcome
      cases houtcome : confirmOutcome env start inputData pDef with
      | ok value =>
        have hstops := List.find?_some hconfirm
        simp [confirmStops, houtcome, Except.isOk, Except.toBool]
          at hstops
      | error fault =>
        cases fault with
        | cancelled =>
          simp only [houtcome, TccReply.isCancelled, if_true]
            at hconfirmOutcome
          rw [Async.queries_bind_of_error _ hconfirmOutcome,
            Async.outcome_bind_of_error _ hconfirmOutcome,
            hconfirmQueries]
          exact .confirmInterrupted pDef hfind hconfirm houtcome
        | exception error =>
          simp only [houtcome, TccReply.isCancelled,
            Bool.false_eq_true, if_false] at hconfirmOutcome
          rw [Async.queries_bind_of_ok _ hconfirmOutcome,
            Async.outcome_bind_of_ok _ hconfirmOutcome,
            hconfirmQueries]
          obtain ⟨hqueries, houtcome'⟩ := @cancelAfter_spec _ V E _
            env tccDef start inputData pDef.id
            (afterConfirms env tccDef start inputData)
            (fun participant =>
              getTryResult_confirmAll _ _ participant)
          have hcourse :=
            Course.confirmFailed pDef error hfind hconfirm houtcome
          rw [← hqueries, ← houtcome'] at hcourse
          exact hcourse

end Course

end PyFly.Tcc
