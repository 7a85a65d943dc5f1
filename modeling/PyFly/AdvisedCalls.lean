import PyFly.AdviceChains
import PyFly.AspectWeaving

/-!
# Calls of woven methods

Advice is noted when it runs.  A call of a method runs what its wrappers bind,
one wrapper around the other.
-/

namespace PyFly.Aop

open List

variable {β κ : Type} [DecidableEq β] [DecidableEq κ] (types : BeanTypes β κ)

/-! ## Calls -/

abbrev AdviceLog (β : Type) := List (β × List Char)

section Calls

variable {A V E : Type}

def noted (binding : AdviceBinding β) : Handler (AdviceLog β) A V E :=
  fun _ log => (.ok (), log ++ [binding.handler])

def passed (binding : AdviceBinding β) : JoinPoint A V E → Advice (AdviceLog β) V E :=
  fun _ => .act (· ++ [binding.handler]) fun _ => .proceed .finish

def ofType (adviceType : AdviceType) (bindings : List (AdviceBinding β)) :
    List (AdviceBinding β) :=
  bindings.filter fun binding => binding.adviceType = adviceType

def wrapperOf (bindings : List (AdviceBinding β)) : Wrapper (AdviceLog β) A V E where
  before := (ofType .before bindings).map noted
  afterReturning := (ofType .afterReturning bindings).map noted
  afterThrowing := (ofType .afterThrowing bindings).map noted
  after := (ofType .after bindings).map noted
  around := (ofType .around bindings).map passed

def wovenMethod (isAsync : Bool) (original : Target (AdviceLog β) A V E)
    (layers : List (List (AdviceBinding β))) : Target (AdviceLog β) A V E :=
  layers.foldr (fun bindings target =>
    if isAsync then (wrapperOf bindings).async target
    else (wrapperOf bindings).sync target) original

def adviceRun (layers : List (List (AdviceBinding β))) (isAsync : Bool)
    (result : Except E V) : AdviceLog β :=
  (wovenMethod isAsync (fun (_ : Unit) log => (result, log)) layers () []).2

end Calls

def AdviceType.Due : AdviceType → Except Unit Unit → Prop
  | .afterReturning, result => result = .ok ()
  | .afterThrowing, result => result = .error ()
  | _, _ => True

def AdvisesOnce (aspects targets : List β) (registrations : List (Option β)) :
    Prop :=
  ∀ target ∈ targets, (types.get target).isAspect = false →
    ∀ method ∈ (types.get target).methods,
      ∀ aspect ∈ aspects, (types.get aspect).isAspect = true →
        ∀ advice ∈ (types.get aspect).advice, matchesPointcut advice.pointcut
              ((types.get target).qualifiedName method) = true →
            ∀ result, advice.adviceType.Due result →
              (adviceRun ((started types registrations).woven target
                method.name) method.isAsync result).count (aspect, advice.name) = 1

def PairedOnce (aspects targets : List β) (registrations : List (Option β)) :
    Prop :=
  ∀ target ∈ targets, (types.get target).isAspect = false →
    ∀ method ∈ (types.get target).methods,
      ∀ aspect ∈ aspects, (types.get aspect).isAspect = true →
        ∀ advice ∈ (types.get aspect).advice, matchesPointcut advice.pointcut
              ((types.get target).qualifiedName method) = true →
            pairs aspect target registrations = 1 ∧
              (advice.adviceType = .around → method.isAsync = true)

variable {types} {A V E : Type}

/-! ## Runs of wrappers -/

def Ends (target : Target (AdviceLog β) A V E) (result : Except E V)
    (ran : AdviceLog β) : Prop :=
  ∀ args log, target args log = (result, log ++ ran)

def handlers (bindings : List (AdviceBinding β)) : AdviceLog β :=
  bindings.map AdviceBinding.handler

omit [DecidableEq β] in
theorem runHandlers_noted (bindings : List (AdviceBinding β))
    (jp : JoinPoint A V E) (log : AdviceLog β) :
    runHandlers (bindings.map noted) jp log = (.ok (), log ++ handlers bindings) := by
  induction bindings generalizing log with
  | nil => simp [runHandlers, handlers]
  | cons binding bindings ih =>
    simp [runHandlers, noted, ih, handlers]

def ending (bindings : List (AdviceBinding β)) : Except E V → AdviceLog β
  | .ok _ => handlers (ofType .afterReturning bindings)
  | .error _ => handlers (ofType .afterThrowing bindings)

variable {result : Except E V} {ran : AdviceLog β}

omit [DecidableEq β] in
theorem frame_ends (bindings : List (AdviceBinding β))
    {body : AdviceLog β → Except E V × AdviceLog β}
    (hbody : ∀ log, body log = (result, log ++ ran)) (args : A)
    (log : AdviceLog β) :
    (wrapperOf bindings).frame body args log =
      (result, log ++ (handlers (ofType .before bindings) ++ (ran ++
        (ending bindings result ++ handlers (ofType .after bindings))))) := by
  cases result with
  | ok value =>
    simp [Wrapper.frame, Wrapper.guarded, wrapperOf, runHandlers_noted, hbody, ending]
  | error error =>
    simp [Wrapper.frame, Wrapper.guarded, Wrapper.throwing, wrapperOf,
      runHandlers_noted, hbody, ending]

omit [DecidableEq β] in
theorem around_passed (binding : AdviceBinding β) (jp : JoinPoint A V E)
    (inner : AdviceLog β → Except E V × AdviceLog β) (log : AdviceLog β) :
    (passed binding jp).around inner log = inner (log ++ [binding.handler]) :=
  rfl

omit [DecidableEq β] in
theorem proceedsIn_passed (binding : AdviceBinding β) (jp : JoinPoint A V E)
    (inner : AdviceLog β → Except E V × AdviceLog β) (log : AdviceLog β) :
    (passed binding jp).proceedsIn inner log = [log ++ [binding.handler]] :=
  rfl

variable {target : Target (AdviceLog β) A V E}

omit [DecidableEq β] in
theorem compose_passed (bindings : List (AdviceBinding β))
    (htarget : Ends target result ran) (args : A) (jp : JoinPoint A V E)
    (log : AdviceLog β) :
    compose target args (bindings.map fun binding => passed binding jp) log =
      (result, log ++ (handlers bindings ++ ran)) := by
  induction bindings generalizing log with
  | nil => simp [compose, htarget args log, handlers]
  | cons binding bindings ih =>
    rw [map_cons, compose, around_passed, ih]
    simp [handlers]

omit [DecidableEq β] in
theorem proceedsOnce_passed (bindings : List (AdviceBinding β))
    (target : Target (AdviceLog β) A V E) (args : A) (jp : JoinPoint A V E)
    (log : AdviceLog β) :
    ProceedsOnce target args (bindings.map fun binding => passed binding jp)
      log := by
  induction bindings generalizing log with
  | nil => trivial
  | cons binding bindings ih =>
    rw [map_cons, ProceedsOnce, proceedsIn_passed]
    simp [ih]

omit [DecidableEq β] in
theorem async_ends (bindings : List (AdviceBinding β)) (htarget : Ends target result ran) :
    Ends ((wrapperOf bindings).async target) result (handlers (ofType .before bindings) ++
        ((handlers (ofType .around bindings) ++ ran) ++
          (ending bindings result ++ handlers (ofType .after bindings)))) := by
  intro args log
  apply frame_ends
  intro log
  have hadvices : (wrapperOf bindings : Wrapper (AdviceLog β) A V E).advices
      args = (ofType .around bindings).map fun binding =>
        passed binding { args := args } := by
    simp [Wrapper.advices, wrapperOf, Function.comp_def]
  have hchain := (invokeLink_composes target args
    ((wrapperOf bindings).advices args) log 0).2 (by
      rw [hadvices]
      exact proceedsOnce_passed _ target args _ log)
  rw [← compose_passed (ofType .around bindings) htarget args
    { args := args } log, ← hadvices, ← hchain]
  rfl

omit [DecidableEq β] in
theorem sync_ends (bindings : List (AdviceBinding β)) (htarget : Ends target result ran) :
    Ends ((wrapperOf bindings).sync target) result
      (handlers (ofType .before bindings) ++ (ran ++
        (ending bindings result ++ handlers (ofType .after bindings)))) := by
  intro args log
  apply frame_ends
  exact htarget args

/-! ## How often an advice method runs -/

def effective (adviceType : AdviceType) (isAsync : Bool) (count : ℕ) : ℕ :=
  if adviceType = .around ∧ isAsync = false then 0 else count

section Counts

variable {aspect : β} {advice : AdviceMethod}

omit [DecidableEq κ] in
theorem count_ofType {bindings : List (AdviceBinding β)} (hbindings : Faithful types bindings)
    (hadvice : advice ∈ (types.get aspect).advice)
    (adviceType : AdviceType) :
    (handlers (ofType adviceType bindings)).count (aspect, advice.name) =
      if advice.adviceType = adviceType then
        bound (aspect, advice.name) bindings
      else 0 := by
  have hcount : (handlers (ofType adviceType bindings)).count
      (aspect, advice.name) = bindings.countP fun binding =>
        binding.handler = (aspect, advice.name) ∧ binding.adviceType = adviceType := by
    unfold handlers ofType List.count
    rw [countP_map, countP_filter]
    apply countP_congr
    intro binding _
    simp
  rw [hcount]
  split
  · rename_i htype
    apply countP_congr
    intro binding hbinding
    simp only [decide_eq_true_eq, and_iff_left_iff_imp]
    intro hhandler
    rw [(hbindings aspect advice hadvice binding hbinding hhandler).1]
    exact htype
  · rename_i htype
    rw [countP_eq_zero]
    intro binding hbinding
    simp only [decide_eq_true_eq, not_and]
    intro hhandler hsame
    rw [(hbindings aspect advice hadvice binding hbinding hhandler).1] at hsame
    exact htype hsame

omit [DecidableEq κ] in
theorem count_wovenMethod (hadvice : advice ∈ (types.get aspect).advice)
    {layers : List (List (AdviceBinding β))}
    (hlayers : ∀ layer ∈ layers, Faithful types layer) (isAsync : Bool)
    {result : Except Unit Unit} (hdue : advice.adviceType.Due result) :
    ∃ ran, Ends (wovenMethod isAsync
        (fun (_ : Unit) (log : AdviceLog β) => (result, log)) layers) result ran ∧
      ran.count (aspect, advice.name) = effective advice.adviceType isAsync
          (boundIn (aspect, advice.name) layers) := by
  induction layers with
  | nil =>
    refine ⟨[], fun _ log => by simp [wovenMethod], ?_⟩
    simp [effective, boundIn]
  | cons layer layers ih =>
    obtain ⟨ran, hran, hcount⟩ :=
      ih fun other hother => hlayers other (mem_cons_of_mem _ hother)
    have hlayer := count_ofType (hlayers layer mem_cons_self) hadvice
    have hbound : boundIn (aspect, advice.name) (layer :: layers) =
        bound (aspect, advice.name) layer + boundIn (aspect, advice.name) layers := by
      simp [boundIn]
    have hending : (ending layer result).count (aspect, advice.name) =
        if advice.adviceType = .afterReturning ∨
            advice.adviceType = .afterThrowing then
          bound (aspect, advice.name) layer
        else 0 := by
      cases result with
      | ok _ =>
        rw [ending, hlayer]
        cases htype : advice.adviceType <;> simp_all [AdviceType.Due]
      | error _ =>
        rw [ending, hlayer]
        cases htype : advice.adviceType <;> simp_all [AdviceType.Due]
    cases isAsync with
    | true =>
      refine ⟨_, async_ends layer hran, ?_⟩
      simp only [count_append, hlayer, hending, hcount, hbound]
      cases htype : advice.adviceType <;> simp [effective] <;> omega
    | false =>
      refine ⟨_, sync_ends layer hran, ?_⟩
      simp only [count_append, hlayer, hending, hcount, hbound]
      cases htype : advice.adviceType <;> simp [effective] <;> omega

theorem count_adviceRun (registrations : List (Option β))
    (haspect : (types.get aspect).isAspect = true)
    (hadvice : advice ∈ (types.get aspect).advice) {target : β}
    (htarget : (types.get target).isAspect = false) {method : Method}
    (hmethod : method ∈ (types.get target).methods)
    (hmatch : matchesPointcut advice.pointcut ((types.get target).qualifiedName method) = true)
    {result : Except Unit Unit} (hdue : advice.adviceType.Due result) :
    (adviceRun ((started types registrations).woven target method.name)
        method.isAsync result).count (aspect, advice.name) =
      effective advice.adviceType method.isAsync (pairs aspect target registrations) := by
  have hpass := pass_started types registrations
  obtain ⟨ran, hran, hcount⟩ := count_wovenMethod hadvice
    (hpass.layers target method.name) method.isAsync hdue
  unfold adviceRun
  rw [hran () [], nil_append, hcount, hpass.paired aspect haspect advice
    hadvice target htarget method hmethod hmatch]

end Counts

theorem AdviceType.exists_due (adviceType : AdviceType) : ∃ result, adviceType.Due result := by
  cases adviceType with
  | before => exact ⟨.ok (), trivial⟩
  | afterReturning => exact ⟨.ok (), rfl⟩
  | afterThrowing => exact ⟨.error (), rfl⟩
  | after => exact ⟨.ok (), trivial⟩
  | around => exact ⟨.ok (), trivial⟩

/-- All advice runs once exactly when there is one pair of registrations of each
aspect with advice for a target and, later, of that target, and no around
advice is for a sync method. -/
theorem advisesOnce_iff_pairedOnce (types : BeanTypes β κ)
    (aspects targets : List β) (registrations : List (Option β)) :
    AdvisesOnce types aspects targets registrations ↔
      PairedOnce types aspects targets registrations := by
  constructor
  · intro honce target hmem htarget method hmethod aspect hin haspect advice hadvice hmatch
    obtain ⟨result, hdue⟩ := advice.adviceType.exists_due
    have hcount := honce target hmem htarget method hmethod aspect hin haspect
      advice hadvice hmatch result hdue
    rw [count_adviceRun registrations haspect hadvice htarget hmethod hmatch hdue] at hcount
    unfold effective at hcount
    split at hcount
    · cases hcount
    · rename_i heffect
      refine ⟨hcount, fun htype => ?_⟩
      simpa [htype] using heffect
  · intro hpaired target hmem htarget method hmethod aspect hin haspect advice
      hadvice hmatch result hdue
    obtain ⟨hpairs, haround⟩ := hpaired target hmem htarget method hmethod
      aspect hin haspect advice hadvice hmatch
    rw [count_adviceRun registrations haspect hadvice htarget hmethod hmatch hdue, hpairs]
    unfold effective
    split
    · rename_i heffect
      rw [haround heffect.1] at heffect
      cases heffect.2
    · rfl

inductive AuditedBean
  | audit
  | orders
  deriving DecidableEq

def audited : BeanTypes AuditedBean AuditedBean where
  classOf := id
  info
    | .audit =>
      { isAspect := true
        advice := [⟨['l', 'o', 'g'], .before, ['*', '*', '.', '*']⟩]
        stereotype := ['a', 's', 'p', 'e', 'c', 't']
        name := ['A', 'u', 'd', 'i', 't'] }
    | .orders =>
      { stereotype := ['s', 'e', 'r', 'v', 'i', 'c', 'e']
        name := ['O', 'r', 'd', 'e', 'r', 's']
        methods := [⟨['p', 'l', 'a', 'c', 'e'], true⟩] }

/-- The service is also the product of a method of a configuration: its advice
runs twice. -/
theorem not_advisesOnce_audited : ¬ AdvisesOnce audited [.audit] [.orders]
      [some .audit, some .orders, some .orders] := by
  intro honce
  have hcount := honce .orders (by decide) rfl
    ⟨['p', 'l', 'a', 'c', 'e'], true⟩ mem_cons_self .audit (by decide) rfl
    ⟨['l', 'o', 'g'], .before, ['*', '*', '.', '*']⟩ mem_cons_self
    (by decide) (.ok ()) trivial
  revert hcount
  decide

end PyFly.Aop
