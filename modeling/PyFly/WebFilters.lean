import Mathlib.Algebra.Ring.Int.Defs
import Mathlib.Data.List.Count
import Mathlib.Data.List.Sort
import PyFly.FilterChain
import PyFly.HttpSecurity

/-!
# Web filters of an application

`create_app` collects the filters from the instances which the registrations
hold at that time.  The generated `main.py` calls it before the context is
started.
-/

namespace PyFly.Web

open Library Security List

/-- `should_not_filter` of a `OncePerRequestFilter`; `none` where `request.url`
raises. -/
def shouldNotFilter (checks : NetlocChecks)
    (urlPatterns excludePatterns : List (List Char)) (request : HttpRequest) :
    Option Bool := do
  let path ← request.urlPath checks
  if !urlPatterns.isEmpty && !urlPatterns.any (fnmatch path ·) then some true
  else
    some (!excludePatterns.isEmpty && excludePatterns.any (fnmatch path ·))

/-- The class of a bean: its `@order`, whether it has the methods of a
`WebFilter`, and whether it is one of the three built-in filters or extends
one. -/
structure FilterClass where
  order : ℤ := 0
  isWebFilter : Bool
  isBuiltIn : Bool := false

/-- A registration with the instance which it holds when `create_app` runs, and
the one which it holds when the context has been started. -/
structure Registration (β : Type) where
  atCreate : Option β
  afterStart : Option β

inductive ChainFilter (β : Type)
  | transactionId
  | requestLogging
  | securityHeaders
  | bean (item : β)
  deriving DecidableEq

def highestPrecedence : ℤ := -2 ^ 31

variable {β : Type} (classOf : β → FilterClass)

def ChainFilter.order : ChainFilter β → ℤ
  | .transactionId => highestPrecedence + 100
  | .requestLogging => highestPrecedence + 200
  | .securityHeaders => highestPrecedence + 300
  | .bean item => (classOf item).order

/-- The discovery of `create_app`. -/
def discoverFilters (registrations : List (Registration β)) : List β :=
  (registrations.filterMap Registration.atCreate).filter fun bean =>
    (classOf bean).isWebFilter && !(classOf bean).isBuiltIn

def createApp (registrations : List (Registration β)) : List (ChainFilter β) :=
  let filters : List (ChainFilter β) :=
    [.transactionId, .requestLogging, .securityHeaders] ++
      (discoverFilters classOf registrations).map ChainFilter.bean
  filters.insertionSort fun first second =>
    first.order classOf ≤ second.order classOf

def webFilterBeans (registrations : List (Registration β)) : List β :=
  (registrations.filterMap Registration.afterStart).filter fun bean =>
    (classOf bean).isWebFilter

structure ServedRequest (β : Type) where
  http : HttpRequest
  conductOf : β → Conduct

/-- A built-in filter has no patterns and calls `call_next` once. -/
def builtInConduct (checks : NetlocChecks) (request : HttpRequest) : Conduct :=
  match shouldNotFilter checks [] [] request with
  | none => .raises
  | some true => .bypassed
  | some false => .runs 1

def ServedRequest.conduct (request : ServedRequest β) (checks : NetlocChecks) :
    ChainFilter β → Conduct
  | .bean item => request.conductOf item
  | _ => builtInConduct checks request.http

def filterRuns (registrations : List (Registration β)) (checks : NetlocChecks)
    (request : ServedRequest β) : List (ChainFilter β) :=
  chainRuns (request.conduct checks) (createApp classOf registrations)

variable [DecidableEq β]

structure FiltersOnce (registrations : List (Registration β))
    (checks : NetlocChecks) (request : ServedRequest β) : Prop where
  once : ∀ bean ∈ webFilterBeans classOf registrations, (request.conductOf bean).isRun = true →
      (filterRuns classOf registrations checks request).count (.bean bean) = 1 ∨
      (filterRuns classOf registrations checks request).count (.bean bean) = 0 ∧
        ∃ filter ∈ upToHalt (request.conduct checks) (createApp classOf registrations),
          (request.conduct checks filter).halts = true ∧
            filter.order classOf ≤ (classOf bean).order
  ordered : (filterRuns classOf registrations checks request).Pairwise
    fun first second => first.order classOf ≤ second.order classOf
  bypassed : ∀ filter, request.conduct checks filter = .bypassed →
    filter ∉ filterRuns classOf registrations checks request ∧
      chainRuns (request.conduct checks)
          ((createApp classOf registrations).filter (· ≠ filter)) =
        filterRuns classOf registrations checks request

/-- One registration holds the bean when `create_app` runs, and it is not an
instance of a built-in filter. -/
def HeldOnce (registrations : List (Registration β)) (bean : β) : Prop :=
  (classOf bean).isBuiltIn = false ∧ (registrations.filter fun registration =>
      registration.atCreate = some bean).length = 1

variable {classOf} {registrations : List (Registration β)}

omit [DecidableEq β] in
theorem createApp_sorted (classOf : β → FilterClass) (registrations : List (Registration β)) :
    (createApp classOf registrations).Pairwise
      fun first second => first.order classOf ≤ second.order classOf := by
  have htotal : Std.Total fun first second : ChainFilter β =>
      first.order classOf ≤ second.order classOf :=
    ⟨fun first second => le_total _ _⟩
  have htrans : IsTrans (ChainFilter β) fun first second =>
      first.order classOf ≤ second.order classOf :=
    ⟨fun _ _ _ => le_trans⟩
  exact pairwise_insertionSort _ _

/-- A bean occurs in the chain once for each registration which holds it when
`create_app` runs. -/
theorem count_createApp {bean : β} (hfilter : (classOf bean).isWebFilter = true) :
    (createApp classOf registrations).count (.bean bean) = if (classOf bean).isBuiltIn then 0
      else (registrations.filter fun registration =>
        registration.atCreate = some bean).length := by
  have hinjective : Function.Injective (ChainFilter.bean (β := β)) :=
    fun _ _ heq => ChainFilter.bean.inj heq
  have hbuiltIns : ([.transactionId, .requestLogging, .securityHeaders] :
      List (ChainFilter β)).count (.bean bean) = 0 := by
    simp
  rw [createApp, (perm_insertionSort _ _).count_eq, count_append,
    count_map_of_injective _ _ hinjective, hbuiltIns, Nat.zero_add]
  unfold discoverFilters
  cases hbuiltIn : (classOf bean).isBuiltIn with
  | true =>
    apply count_eq_zero_of_not_mem
    simp [hbuiltIn]
  | false =>
    rw [count_filter (by simp [hfilter, hbuiltIn]),
      count_filterMap, countP_eq_length_filter]
    simp only [Bool.false_eq_true, if_false]
    congr 1
    apply filter_congr
    intro registration _
    rw [Bool.eq_iff_iff]
    simp

theorem count_createApp_eq_one {bean : β} (hfilter : (classOf bean).isWebFilter = true) :
    (createApp classOf registrations).count (.bean bean) = 1 ↔
      HeldOnce classOf registrations bean := by
  rw [count_createApp hfilter, HeldOnce]
  cases (classOf bean).isBuiltIn <;> simp

section

variable {checks : NetlocChecks} {request : ServedRequest β}

theorem runsOnce_iff {bean : β} (hbean : bean ∈ webFilterBeans classOf registrations)
    (hrun : (request.conductOf bean).isRun = true)
    (hcount : (filterRuns classOf registrations checks request).count (.bean bean) =
      (reached (request.conduct checks) (createApp classOf registrations)).count (.bean bean)) :
    ((filterRuns classOf registrations checks request).count (.bean bean) = 1 ∨
      (filterRuns classOf registrations checks request).count (.bean bean) = 0 ∧
        ∃ filter ∈ upToHalt (request.conduct checks) (createApp classOf registrations),
          (request.conduct checks filter).halts = true ∧
            filter.order classOf ≤ (classOf bean).order) ↔
      HeldOnce classOf registrations bean ∨
        CutShort (request.conduct checks) (ChainFilter.order classOf)
          (createApp classOf registrations) (.bean bean) := by
  have hfilter : (classOf bean).isWebFilter = true :=
    (mem_filter.mp hbean).2
  have hreached : (reached (request.conduct checks)
      (createApp classOf registrations)).count (.bean bean) = (upToHalt (request.conduct checks)
          (createApp classOf registrations)).count (.bean bean) :=
    count_filter hrun
  rw [hcount, hreached, ← count_createApp_eq_one hfilter]
  exact reachedOnce_iff (createApp_sorted classOf registrations)

end

/-- Each filter bean runs once in order exactly when each which is not bypassed
is held once when `create_app` runs, or the chain is cut short, and the calls
which a filter repeats are harmless. -/
theorem filtersOnce_iff (classOf : β → FilterClass)
    (registrations : List (Registration β)) (checks : NetlocChecks)
    (request : ServedRequest β) :
    FiltersOnce classOf registrations checks request ↔
      (∀ bean ∈ webFilterBeans classOf registrations,
        (request.conductOf bean).isRun = true → HeldOnce classOf registrations bean ∨
            CutShort (request.conduct checks) (ChainFilter.order classOf)
              (createApp classOf registrations) (.bean bean)) ∧
      RepeatsHarmless (request.conduct checks) (ChainFilter.order classOf)
        (fun filter => ∃ bean ∈ webFilterBeans classOf registrations, filter = .bean bean)
        (createApp classOf registrations) := by
  have hsorted := createApp_sorted classOf registrations
  constructor
  · intro h
    have hcount : ∀ filter : ChainFilter β,
        (∃ bean ∈ webFilterBeans classOf registrations, filter = .bean bean) →
        (filterRuns classOf registrations checks request).count filter ≤ 1 := by
      rintro filter ⟨bean, hbean, rfl⟩
      cases hrun : (request.conductOf bean).isRun with
      | true => rcases h.once bean hbean hrun with hone | ⟨hzero, -⟩ <;> omega
      | false =>
        have hnot : ChainFilter.bean bean ∉
            filterRuns classOf registrations checks request := by
          intro hmem
          have hruns := (reached_subset (mem_chainRuns.mp hmem)).2
          rw [show request.conduct checks (.bean bean) =
            request.conductOf bean from rfl, hrun] at hruns
          cases hruns
        rw [count_eq_zero_of_not_mem hnot]
        exact Nat.zero_le 1
    have hharmless := harmless_of_chainRuns h.ordered hcount
    have hreached := (chainRuns_of_harmless hsorted hharmless).2
    refine ⟨?_, hharmless⟩
    intro bean hbean hrun
    exact (runsOnce_iff hbean hrun
      (hreached (.bean bean) ⟨bean, hbean, rfl⟩)).mp (h.once bean hbean hrun)
  · rintro ⟨honce, hharmless⟩
    obtain ⟨hordered, hreached⟩ := chainRuns_of_harmless hsorted hharmless
    refine ⟨?_, hordered, ?_⟩
    · intro bean hbean hrun
      exact (runsOnce_iff hbean hrun
        (hreached (.bean bean) ⟨bean, hbean, rfl⟩)).mpr (honce bean hbean hrun)
    · intro filter hbypassed
      exact chainRuns_without_bypassed hbypassed _

/-- A filter bean which is created when the context is started does not run. -/
theorem not_filtersOnce_created_later : ¬ FiltersOnce (fun _ : ℕ => { isWebFilter := true })
      [⟨none, some 0⟩] ⟨fun _ => true, fun _ => true⟩
      { http := { scheme := .http, host := "h".toList, path := "/".toList }
        conductOf := fun _ => .runs 1 } := by
  intro h
  have honce := h.once 0 (by decide) rfl
  revert honce
  decide

end PyFly.Web
