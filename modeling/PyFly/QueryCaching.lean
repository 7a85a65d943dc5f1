import Mathlib.Data.List.Induction
import PyFly.QueryBus

/-!
# Transparent caching of queries

A cached result is served to every later query with the same key.  It is the
right one when all answers which are given under one key agree; the key knows
neither the context nor the module of the class, and the hash in it collides.
-/

namespace PyFly.Cqrs

open Library Cache List

variable {κ ι γ ε V : Type} {python : Python κ ι} {bus : QueryBus κ ι γ ε V}

def QueryBus.handlerReturns (bus : QueryBus κ ι γ ε V)
    (call : QueryCall κ ι γ ε) (result : Option V) : Prop :=
  ∃ handler, bus.findHandler call.query.cls = some handler ∧ handler.answer call = .ok result

def Transparent (python : Python κ ι) (bus : QueryBus κ ι γ ε V)
    (before : List (QueryCall κ ι γ ε)) (call : QueryCall κ ι γ ε) : Prop :=
  ∀ result, (bus.execute python (bus.after python before) call).1.result =
    .ok result → bus.handlerReturns call result

def QueryBus.place (python : Python κ ι) (bus : QueryBus κ ι γ ε V)
    (call : QueryCall κ ι γ ε) : Option (List Char) :=
  match bus.accept call with
  | .error _ => none
  | .ok handler =>
    (bus.cacheSlot python handler call.query).bind fun slot =>
      slot.1.place slot.2

def AnswersAgree (python : Python κ ι) (bus : QueryBus κ ι γ ε V)
    (first second : QueryCall κ ι γ ε) : Prop :=
  ∀ place value, bus.place python first = some place →
    bus.place python second = some place → bus.handlerReturns first (some value) →
        bus.handlerReturns second (some value)

section Call

variable {store : Store (List Char) V} {call : QueryCall κ ι γ ε}
  {handler : QueryHandler κ ι γ ε V}

theorem handlerReturns_iff (haccept : bus.accept call = .ok handler) {result : Option V} :
    bus.handlerReturns call result ↔ handler.answer call = .ok result := by
  simp [QueryBus.handlerReturns, QueryBus.findHandler_of_accept haccept]

theorem tryCacheGet_eq (haccept : bus.accept call = .ok handler) :
    bus.tryCacheGet python store handler call.query =
      (bus.place python call).bind store.get := by
  simp only [QueryBus.tryCacheGet, QueryBus.place, haccept]
  cases bus.cacheSlot python handler call.query with
  | none => rfl
  | some slot => rfl

theorem tryCachePut_eq (haccept : bus.accept call = .ok handler) (result : Option V) :
    bus.tryCachePut python store handler call.query result = match bus.place python call with
      | some place => store.put place result
      | none => store := by
  simp only [QueryBus.tryCachePut, QueryBus.place, haccept]
  cases bus.cacheSlot python handler call.query with
  | none => rfl
  | some slot => rfl

theorem execute_cases (python : Python κ ι) (bus : QueryBus κ ι γ ε V)
    (store : Store (List Char) V) (call : QueryCall κ ι γ ε) :
    (∃ error handled, bus.execute python store call = (⟨.error error, handled⟩, store) ∧
      ∀ place, bus.place python call = some place → store.get place = none ∧
        ∀ result, ¬ bus.handlerReturns call result) ∨
    (∃ place value, bus.place python call = some place ∧ store.get place = some value ∧
      bus.execute python store call = (⟨.ok (some value), false⟩, store)) ∨
    (∃ result, bus.handlerReturns call result ∧
      (bus.execute python store call).1 = ⟨.ok result, true⟩ ∧
      (∀ place, bus.place python call = some place → store.get place = none) ∧
      (bus.execute python store call).2 = match bus.place python call with
        | some place => store.put place result
        | none => store) := by
  cases haccept : bus.accept call with
  | error error =>
    refine .inl ⟨error.wrapped python bus.errorText call.query.cls, false, ?_, ?_⟩
    · simp only [QueryBus.execute, haccept]
    · intro place hplace
      simp [QueryBus.place, haccept] at hplace
  | ok handler =>
    have hget : bus.tryCacheGet python store handler call.query =
        (bus.place python call).bind store.get := tryCacheGet_eq haccept
    cases hcached : bus.tryCacheGet python store handler call.query with
    | some value =>
      rw [hcached] at hget
      cases hplace : bus.place python call with
      | none => simp [hplace] at hget
      | some place =>
        refine .inr (.inl ⟨place, value, rfl, ?_, ?_⟩)
        · simpa [hplace] using hget.symm
        · simp only [QueryBus.execute, haccept, hcached]
    | none =>
      rw [hcached] at hget
      have hmiss : ∀ place, bus.place python call = some place → store.get place = none := by
        intro place hplace
        simpa [hplace] using hget.symm
      cases hanswer : handler.answer call with
      | error error =>
        refine .inl ⟨error.wrapped python bus.errorText call.query.cls, true, ?_, ?_⟩
        · simp only [QueryBus.execute, haccept, hcached, hanswer]
        · intro place hplace
          refine ⟨hmiss place hplace, ?_⟩
          simp [handlerReturns_iff haccept, hanswer]
      | ok result =>
        refine .inr (.inr ⟨result, ?_, ?_, hmiss, ?_⟩)
        · exact (handlerReturns_iff haccept).mpr hanswer
        · simp only [QueryBus.execute, haccept, hcached, hanswer]
        · simp only [QueryBus.execute, haccept, hcached, hanswer, tryCachePut_eq haccept]

theorem handlerReturns_unique {result other : Option V} (h : bus.handlerReturns call result)
    (hother : bus.handlerReturns call other) : other = result := by
  obtain ⟨handler, hfind, hanswer⟩ := h
  obtain ⟨handler', hfind', hanswer'⟩ := hother
  rw [hfind] at hfind'
  cases hfind'
  rw [hanswer] at hanswer'
  cases hanswer'
  rfl

end Call

/-! ## Runs -/

structure Filled (python : Python κ ι) (bus : QueryBus κ ι γ ε V)
    (calls : List (QueryCall κ ι γ ε)) (store : Store (List Char) V) :
    Prop where
  known : ∀ call ∈ calls, ∀ place value, bus.place python call = some place →
    bus.handlerReturns call (some value) → store.get place = some value
  source : ∀ place value, store.get place = some value → ∃ call ∈ calls,
    bus.place python call = some place ∧ bus.handlerReturns call (some value)

variable {calls : List (QueryCall κ ι γ ε)} {call : QueryCall κ ι γ ε}
  {store : Store (List Char) V}

theorem Filled.transparent_iff (hfilled : Filled python bus calls store) :
    (∀ result, (bus.execute python store call).1.result = .ok result →
        bus.handlerReturns call result) ↔
      ∀ first ∈ calls, AnswersAgree python bus first call := by
  -- where the cache has nothing, no call before has left anything
  have hagree : (∀ place, bus.place python call = some place → store.get place = none) →
        ∀ first ∈ calls, AnswersAgree python bus first call := by
    intro hmiss first hfirst place value hplace hsecond hreturns
    have hget := hfilled.known first hfirst place value hplace hreturns
    rw [hmiss place hsecond] at hget
    cases hget
  rcases execute_cases python bus store call with
    ⟨error, handled, hexecute, hnone⟩ | ⟨place, value, hplace, hget, hexecute⟩ |
      ⟨result, hreturns, hexecute, hmiss, -⟩
  · rw [hexecute]
    constructor
    · intro _
      exact hagree fun place hplace => (hnone place hplace).1
    · intro _ result hresult
      cases hresult
  · rw [hexecute]
    constructor
    · intro htransparent first hfirst other value' hother hsecond hreturns
      have hsame : place = other := by simpa [hplace] using hsecond
      have hget' := hfilled.known first hfirst other value' hother hreturns
      rw [← hsame, hget] at hget'
      exact htransparent _ (by rw [hget'])
    · intro hagree result hresult
      obtain ⟨first, hfirst, hother, hreturns⟩ :=
        hfilled.source place value hget
      cases hresult
      exact hagree first hfirst place value hother hplace hreturns
  · rw [hexecute]
    constructor
    · intro _
      exact hagree hmiss
    · intro _ other hother
      cases hother
      exact hreturns

theorem Filled.concat_of_known (hfilled : Filled python bus calls store)
    {next : Store (List Char) V}
    (hkept : ∀ place value, store.get place = some value → next.get place = some value)
    (hnew : ∀ place value, next.get place = some value →
      store.get place = some value ∨ (bus.place python call = some place ∧
        bus.handlerReturns call (some value)))
    (hcall : ∀ place value, bus.place python call = some place →
      bus.handlerReturns call (some value) → next.get place = some value) :
    Filled python bus (calls ++ [call]) next := by
  constructor
  · intro other hother place value hplace hreturns
    rcases mem_append.mp hother with hother | hother
    · exact hkept place value (hfilled.known other hother place value hplace hreturns)
    · rw [mem_singleton.mp hother] at hplace hreturns
      exact hcall place value hplace hreturns
  · intro place value hget
    rcases hnew place value hget with hget | hfacts
    · obtain ⟨other, hother, hfacts⟩ := hfilled.source place value hget
      exact ⟨other, mem_append_left _ hother, hfacts⟩
    · exact ⟨call, by simp, hfacts⟩

theorem Filled.concat (hfilled : Filled python bus calls store) (htransparent : ∀ result,
      (bus.execute python store call).1.result = .ok result → bus.handlerReturns call result) :
    Filled python bus (calls ++ [call]) (bus.execute python store call).2 := by
  rcases execute_cases python bus store call with
    ⟨error, handled, hexecute, hnone⟩ | ⟨place, value, hplace, hget, hexecute⟩ |
      ⟨result, hreturns, -, hmiss, hstore⟩
  · rw [hexecute]
    apply hfilled.concat_of_known
    · exact fun _ _ hget => hget
    · exact fun _ _ hget => .inl hget
    · intro place value hplace hreturns
      exact absurd hreturns ((hnone place hplace).2 _)
  · rw [hexecute] at htransparent ⊢
    apply hfilled.concat_of_known
    · exact fun _ _ hget => hget
    · exact fun _ _ hget => .inl hget
    · intro other value' hother hreturns
      rw [hplace] at hother
      cases hother
      rw [handlerReturns_unique (htransparent _ rfl) hreturns]
      exact hget
  · rw [hstore]
    cases hplace : bus.place python call with
    | none =>
      apply hfilled.concat_of_known
      · exact fun _ _ hget => hget
      · exact fun _ _ hget => .inl hget
      · intro place value hfiled
        simp [hplace] at hfiled
    | some place =>
      have hget : ∀ other, (store.put place result).get other =
          if other = place then result else store.get other := by simp
      apply hfilled.concat_of_known
      · intro other value hvalue
        have hne : other ≠ place := by
          intro hsame
          rw [hsame, hmiss place hplace] at hvalue
          cases hvalue
        simpa [hget, hne] using hvalue
      · intro other value hvalue
        by_cases hsame : other = place
        · have hresult : result = some value := by
            simpa [hget, hsame] using hvalue
          exact .inr ⟨hsame ▸ hplace, hresult ▸ hreturns⟩
        · exact .inl (by simpa [hget, hsame] using hvalue)
      · intro other value hother hvalue
        have hsame : place = other := by simpa [hplace] using hother
        simp [hsame, handlerReturns_unique hvalue hreturns]

theorem after_concat (python : Python κ ι) (bus : QueryBus κ ι γ ε V)
    (calls : List (QueryCall κ ι γ ε)) (call : QueryCall κ ι γ ε) :
    bus.after python (calls ++ [call]) =
      (bus.execute python (bus.after python calls) call).2 := by
  simp [QueryBus.after]

theorem filled_after (h : AtEach (Transparent python bus) calls) :
    Filled python bus calls (bus.after python calls) := by
  induction calls using List.reverseRecOn with
  | nil => constructor <;> simp [QueryBus.after]
  | append_singleton calls call ih =>
    obtain ⟨hcalls, hcall⟩ := AtEach.concat_iff.mp h
    rw [after_concat]
    exact (ih hcalls).concat hcall

/-- All calls of a sequence are transparent exactly when the answers under each
key agree. -/
theorem transparent_iff_answersAgree (python : Python κ ι)
    (bus : QueryBus κ ι γ ε V) (calls : List (QueryCall κ ι γ ε)) :
    AtEach (Transparent python bus) calls ↔ calls.Pairwise (AnswersAgree python bus) := by
  induction calls using List.reverseRecOn with
  | nil => simp [AtEach.nil]
  | append_singleton calls call ih =>
    rw [AtEach.concat_iff, pairwise_append, ← ih]
    constructor
    · rintro ⟨hcalls, hcall⟩
      refine ⟨hcalls, by simp, ?_⟩
      intro first hfirst second hsecond
      rw [mem_singleton.mp hsecond]
      exact (filled_after hcalls).transparent_iff.mp hcall first hfirst
    · rintro ⟨hcalls, -, hagree⟩
      refine ⟨hcalls, ?_⟩
      exact (filled_after hcalls).transparent_iff.mpr fun first hfirst =>
        hagree first hfirst call (by simp)

/-! ## Colliding keys -/

/-- One class of queries without unhashable values. -/
def plainPython : Python Unit Empty where
  className _ := ['G', 'e', 't']
  strHash text := text.length
  objectHash := Empty.elim
  repr _ := []

def echoBus : QueryBus Unit Empty Unit Empty (List ℤ) where
  findHandler _ := some
    { supportsCaching := true
      handle := fun query => .ok (some (query.fields.map fun field =>
        match field.2 with
        | .int n => n
        | _ => 0))
      handleWithContext := fun _ _ => .ok none }
  cache := some .plain
  errorText := Empty.elim

def getQuery (id : ℤ) : QueryCall Unit Empty Unit Empty where
  query := { cls := (), fields := [(['i', 'd'], .int id)] }

theorem not_transparent_neg_one : ¬ AtEach (Transparent plainPython echoBus)
      [getQuery (-1), getQuery (-2)] := by
  intro htransparent
  have hreturns := htransparent [getQuery (-1)] (getQuery (-2)) [] rfl (some [-1]) (by decide)
  obtain ⟨handler, hfind, hanswer⟩ := hreturns
  cases hfind
  revert hanswer
  decide

end PyFly.Cqrs
