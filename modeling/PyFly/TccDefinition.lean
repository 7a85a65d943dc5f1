import PyFly.Library.InsertionDict
import PyFly.TransactionalPorts
import Mathlib.Data.Rat.Defs
import Mathlib.Tactic.Common

/-!
# TCC definitions, contexts and results

Participant ids are any type with decidable equality.  A Python value is an
`Option V`, with `none` for `None`.  A `TccDefinition` can only be built with
every participant filed under its own id.
-/

namespace PyFly.Tcc

open Library Transactional List

variable {ι V E : Type}

inductive TccPhase
  | tryPhase
  | confirm
  | cancel
  deriving DecidableEq, Repr

/-- The dictionary a phase decorator puts on a method; absent keys are zero. -/
structure PhaseMeta where
  timeoutMs : ℤ
  retry : ℤ
  backoffMs : ℤ

def PhaseMeta.empty : PhaseMeta := ⟨0, 0, 0⟩

/-- An object in the extras of an `Annotated` hint. -/
inductive Marker
  | input (key : Option String)
  | fromTry
  | unrecognised

inductive Hint
  | tccContext
  | annotated (baseIsContext : Bool) (extras : List Marker)
  | unmarked

structure Parameter where
  name : String
  hint : Option Hint

/-- A method of a participant class.  Several phase decorators may be stacked
on one method; `hintsResolve` tells whether its annotations can be
evaluated. -/
structure PhaseMethod where
  qualname : String
  parameters : List Parameter
  hintsResolve : Bool
  tryMeta : Option PhaseMeta
  confirmMeta : Option PhaseMeta
  cancelMeta : Option PhaseMeta

def PhaseMethod.phaseMeta (method : PhaseMethod) : TccPhase → Option PhaseMeta
  | .tryPhase => method.tryMeta
  | .confirm => method.confirmMeta
  | .cancel => method.cancelMeta

structure ParticipantDefinition (ι : Type) where
  id : ι
  order : ℤ
  timeoutMs : ℤ
  optional : Bool
  tryMethod : Option PhaseMethod
  confirmMethod : Option PhaseMethod
  cancelMethod : Option PhaseMethod

/-- A method which only takes `self`. -/
def PhaseMethod.nullary (qualname : String) : PhaseMethod where
  qualname := qualname
  parameters := [⟨"self", none⟩]
  hintsResolve := true
  tryMeta := none
  confirmMeta := none
  cancelMeta := none

def ParticipantDefinition.complete (id : ι) (optional : Bool) : ParticipantDefinition ι where
  id := id
  order := 0
  timeoutMs := 0
  optional := optional
  tryMethod := some (.nullary "do_try")
  confirmMethod := some (.nullary "do_confirm")
  cancelMethod := some (.nullary "do_cancel")

/-- `_get_phase_method`. -/
def ParticipantDefinition.phaseMethod (pDef : ParticipantDefinition ι) :
    TccPhase → Option PhaseMethod
  | .tryPhase => pDef.tryMethod
  | .confirm => pDef.confirmMethod
  | .cancel => pDef.cancelMethod

structure TccDefinition (ι : Type) where
  name : String
  timeoutMs : ℤ
  retryEnabled : Bool
  maxRetries : ℤ
  backoffMs : ℤ
  participants : Dict ι (ParticipantDefinition ι)
  filedById : ∀ item ∈ participants.items, item.2.id = item.1

namespace TccDefinition

def participantList (tccDef : TccDefinition ι) : List (ParticipantDefinition ι) :=
  tccDef.participants.values

theorem map_id_participantList (tccDef : TccDefinition ι) :
    tccDef.participantList.map ParticipantDefinition.id = tccDef.participants.keys := by
  unfold participantList Dict.values Dict.keys
  rw [map_map]
  apply map_congr_left
  intro item hmem
  exact tccDef.filedById item hmem

theorem nodup_ids (tccDef : TccDefinition ι) :
    (tccDef.participantList.map ParticipantDefinition.id).Nodup := by
  rw [tccDef.map_id_participantList]
  exact tccDef.participants.keys_nodup

theorem get?_participants [DecidableEq ι] {tccDef : TccDefinition ι}
    {pDef : ParticipantDefinition ι} (hmem : pDef ∈ tccDef.participantList) :
    tccDef.participants.get? pDef.id = some pDef := by
  obtain ⟨item, hitem, hvalue⟩ := mem_map.mp hmem
  rw [Dict.get?_eq_some_iff, ← hvalue, tccDef.filedById item hitem]
  exact hitem

def ofParticipants [DecidableEq ι] (name : String)
    (participants : List (ParticipantDefinition ι)) : TccDefinition ι where
  name := name
  timeoutMs := 0
  retryEnabled := false
  maxRetries := 0
  backoffMs := 0
  participants := Dict.ofList (participants.map fun pDef => (pDef.id, pDef))
  filedById := by
    intro item hmem
    obtain ⟨pDef, _, hitem⟩ := mem_map.mp (Dict.mem_items_ofList hmem)
    rw [← hitem]

end TccDefinition

/-! ## Run-time context -/

/-- The fields of `TccContext` which the engine reads or writes. -/
structure TccContext (ι V : Type) where
  correlationId : String
  tccName : String
  headers : Dict String String
  tryResults : Dict ι (Option V)
  currentPhase : TccPhase
  participantStatuses : Dict ι TccPhase

namespace TccContext

def create (correlationId tccName : String) (headers : Dict String String) :
    TccContext ι V where
  correlationId := correlationId
  tccName := tccName
  headers := headers
  tryResults := Dict.empty
  currentPhase := .tryPhase
  participantStatuses := Dict.empty

def setPhase (ctx : TccContext ι V) (phase : TccPhase) : TccContext ι V :=
  { ctx with currentPhase := phase }

variable [DecidableEq ι]

def getTryResult (ctx : TccContext ι V) (participant : ι) : Option V :=
  (ctx.tryResults.get? participant).join

def setTryResult (ctx : TccContext ι V) (participant : ι)
    (result : Option V) : TccContext ι V :=
  { ctx with tryResults := ctx.tryResults.set participant result }

def setParticipantStatus (ctx : TccContext ι V) (participant : ι)
    (phase : TccPhase) : TccContext ι V :=
  { ctx with
    participantStatuses := ctx.participantStatuses.set participant phase }

omit [DecidableEq ι] in
@[simp] theorem tryResults_setPhase (ctx : TccContext ι V)
    (phase : TccPhase) : (ctx.setPhase phase).tryResults = ctx.tryResults :=
  rfl

omit [DecidableEq ι] in
@[simp] theorem participantStatuses_setPhase (ctx : TccContext ι V)
    (phase : TccPhase) :
    (ctx.setPhase phase).participantStatuses = ctx.participantStatuses :=
  rfl

@[simp] theorem tryResults_setParticipantStatus (ctx : TccContext ι V)
    (participant : ι) (phase : TccPhase) :
    (ctx.setParticipantStatus participant phase).tryResults = ctx.tryResults :=
  rfl

@[simp] theorem participantStatuses_setTryResult (ctx : TccContext ι V)
    (participant : ι) (result : Option V) :
    (ctx.setTryResult participant result).participantStatuses = ctx.participantStatuses :=
  rfl

@[simp] theorem getTryResult_setTryResult_self (ctx : TccContext ι V)
    (participant : ι) (result : Option V) :
    (ctx.setTryResult participant result).getTryResult participant =
      result := by
  simp [getTryResult, setTryResult]

theorem getTryResult_setTryResult_of_ne (ctx : TccContext ι V)
    {participant other : ι} (hne : other ≠ participant)
    (result : Option V) :
    (ctx.setTryResult participant result).getTryResult other = ctx.getTryResult other := by
  unfold getTryResult setTryResult
  rw [Dict.get?_set_of_ne hne]

end TccContext

structure ParticipantResult (ι V E : Type) where
  participantId : ι
  tryResult : Option V
  tryError : Option E
  confirmError : Option E
  cancelError : Option E
  finalPhase : TccPhase
  latencyMs : ℚ

structure TccResult (ι V E : Type) where
  correlationId : String
  tccName : String
  success : Bool
  finalPhase : TccPhase
  tryResults : Dict ι (Option V)
  participantResults : Dict ι (ParticipantResult ι V E)
  startedAt : ℚ
  completedAt : ℚ
  error : Option E
  failedParticipantId : Option ι

def TccResult.failedParticipants (result : TccResult ι V E) :
    List (ι × ParticipantResult ι V E) :=
  result.participantResults.items.filter fun item =>
    item.2.tryError.isSome || item.2.confirmError.isSome || item.2.cancelError.isSome

end PyFly.Tcc
