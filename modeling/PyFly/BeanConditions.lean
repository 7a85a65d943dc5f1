import PyFly.ConditionEvaluator

/-!
# The bean pass

The pass judges every class by the registry it begins with, and the class a
condition names is never looked at.  The registry it ends in agrees with the
conditions of its classes unless a condition was met by a class the same pass
removes, the named class itself stays, or two fallbacks of one type see each
other.
-/

namespace PyFly.Container

open Library List

variable {κ : Type} [DecidableEq κ]

variable {cls : TypeExpr κ}

theorem mem_keys_removeRegistration {registry : Registry κ}
    {other : TypeExpr κ} :
    other ∈ (removeRegistration registry cls).registrations.keys ↔
      other ∈ registry.registrations.keys ∧ other ≠ cls := by
  unfold removeRegistration
  cases hreg : registry.registrations.get? cls with
  | none =>
    rw [Dict.get?_eq_none_iff] at hreg
    exact ⟨fun hother => ⟨hother, fun hsame => hreg (hsame ▸ hother)⟩,
      And.left⟩
  | some reg =>
    show other ∈ (registry.registrations.erase cls).keys ↔ _
    simp only [Dict.keys, mem_map, Dict.mem_items_erase]
    constructor
    · rintro ⟨item, ⟨hitem, hne⟩, rfl⟩
      exact ⟨⟨item, hitem, rfl⟩, hne⟩
    · rintro ⟨⟨item, hitem, rfl⟩, hne⟩
      exact ⟨item, ⟨hitem, hne⟩, rfl⟩

theorem mem_keys_foldl_removeRegistration {removed : List (TypeExpr κ)}
    {registry : Registry κ} :
    cls ∈ (removed.foldl removeRegistration registry).registrations.keys ↔
      cls ∈ registry.registrations.keys ∧ cls ∉ removed := by
  induction removed generalizing registry with
  | nil => simp
  | cons head removed ih =>
    rw [foldl_cons, ih, mem_keys_removeRegistration, mem_cons,
      not_or, and_assoc]

theorem mem_keys_removeWhere {fails : TypeExpr κ → Bool} {registry : Registry κ} :
    cls ∈ (removeWhere fails registry).registrations.keys ↔
      cls ∈ registry.registrations.keys ∧ fails cls = false := by
  unfold removeWhere
  rw [mem_keys_foldl_removeRegistration, mem_filter]
  constructor
  · rintro ⟨hkey, hstays⟩
    exact ⟨hkey, by simpa [hkey] using hstays⟩
  · rintro ⟨hkey, hstays⟩
    exact ⟨hkey, by simp [hstays]⟩

section Consistency

variable (declarations : Declarations κ)

def Declarations.OfType (cls type : TypeExpr κ) : Prop :=
  cls = type ∨ declarations.issubclass cls type = some true

structure Candidate (cls type : TypeExpr κ) : Prop where
  ofType : declarations.OfType cls type
  guarded : .onMissingBean type ∈ declarations.conditions cls
  only : ∀ condition ∈ declarations.conditions cls,
    condition.beanDependent = true → condition = .onMissingBean type

structure SelfConsistent (before after : Registry κ) : Prop where
  onBean : ∀ cls ∈ after.registrations.keys, ∀ type,
    .onBean type ∈ declarations.conditions cls →
      ∃ other ∈ after.registrations.keys,
        other ≠ cls ∧ declarations.OfType other type
  onMissingBean : ∀ cls ∈ after.registrations.keys, ∀ type,
    .onMissingBean type ∈ declarations.conditions cls →
      ∀ other ∈ after.registrations.keys,
        other ≠ cls → ¬ declarations.OfType other type
  fallback : ∀ type,
    (∃ cls ∈ before.registrations.keys, Candidate declarations cls type) →
      (∀ cls ∈ before.registrations.keys,
        declarations.OfType cls type → Candidate declarations cls type) →
        ∃! cls, cls ∈ after.registrations.keys ∧
          Candidate declarations cls type

/-- No class which meets its conditions relies on beans which all fail
theirs, or on the absence of the class its condition names; and no two
fallbacks other than the type itself are alone with it. -/
structure Settled (registry : Registry κ) : Prop where
  supported : ∀ cls ∈ registry.registrations.keys,
    shouldInclude declarations registry true cls = true →
      ∀ type, .onBean type ∈ declarations.conditions cls →
        ¬ ∀ other ∈ registry.registrations.keys, other ≠ cls →
          declarations.OfType other type →
            shouldInclude declarations registry true other = false
  unclaimed : ∀ cls ∈ registry.registrations.keys,
    shouldInclude declarations registry true cls = true →
      ∀ type, .onMissingBean type ∈ declarations.conditions cls →
        type ≠ cls → type ∈ registry.registrations.keys →
          shouldInclude declarations registry true type = false
  uncontested : ∀ type,
    (∀ cls ∈ registry.registrations.keys,
      declarations.OfType cls type → Candidate declarations cls type) →
      ∀ cls ∈ registry.registrations.keys,
        ∀ other ∈ registry.registrations.keys,
          cls ≠ type → declarations.OfType cls type →
            other ≠ type → declarations.OfType other type → cls = other

variable {declarations} {registry : Registry κ}

variable {cls type : TypeExpr κ}

omit [DecidableEq κ] in
theorem Declarations.OfType.issubclass_of_ne (h : declarations.OfType cls type)
    (hne : cls ≠ type) :
    declarations.issubclass cls type = some true :=
  h.resolve_left hne

theorem hasBeanOfType_iff :
    hasBeanOfType declarations registry type (some cls) = true ↔
      ∃ other ∈ registry.registrations.keys, other ≠ type ∧ other ≠ cls ∧
        declarations.issubclass other type = some true := by
  unfold hasBeanOfType
  simp only [any_eq_true, Bool.and_eq_true, decide_eq_true_eq, ne_eq,
    Option.some.injEq, beq_iff_eq, and_assoc]
  constructor
  · rintro ⟨other, hkey, hne, hcls, hsub⟩
    exact ⟨other, hkey, hne, fun hsame => hcls hsame.symm, hsub⟩
  · rintro ⟨other, hkey, hne, hcls, hsub⟩
    exact ⟨other, hkey, hne, fun hsame => hcls hsame.symm, hsub⟩

theorem shouldInclude_bean_iff :
    shouldInclude declarations registry true cls = true ↔
      ∀ condition ∈ declarations.conditions cls,
        condition.beanDependent = true →
          evaluate declarations registry (some cls) condition = true := by
  unfold shouldInclude
  simp only [Bool.true_or, Bool.true_and, all_eq_true, Bool.or_eq_true,
    bne_iff_ne, ne_eq]
  refine forall₂_congr fun condition _ => ?_
  exact or_iff_not_imp_left.trans (by rw [not_not])

/-- A class which passes has seen no bean of a type it must miss, except
perhaps the type itself. -/
theorem eq_of_onMissingBean {other : TypeExpr κ}
    (h : shouldInclude declarations registry true cls = true)
    (hcondition : .onMissingBean type ∈ declarations.conditions cls)
    (hkey : other ∈ registry.registrations.keys) (hne : other ≠ cls)
    (htype : declarations.OfType other type) : other = type := by
  by_contra hother
  have hmissing := shouldInclude_bean_iff.mp h _ hcondition rfl
  have hfound : hasBeanOfType declarations registry type (some cls) = true :=
    hasBeanOfType_iff.mpr
      ⟨other, hkey, hother, hne, htype.issubclass_of_ne hother⟩
  simp only [evaluate, hfound] at hmissing
  cases hmissing

theorem Candidate.shouldInclude (h : Candidate declarations cls type)
    (halone : ∀ other ∈ registry.registrations.keys, other ≠ type →
      declarations.OfType other type → other = cls) :
    shouldInclude declarations registry true cls = true := by
  rw [shouldInclude_bean_iff]
  intro condition hcondition hbean
  rw [h.only condition hcondition hbean]
  have hnone : hasBeanOfType declarations registry type (some cls) =
      false := by
    rw [Bool.eq_false_iff, ne_eq, hasBeanOfType_iff]
    rintro ⟨other, hkey, hne, hcls, hsub⟩
    exact hcls (halone other hkey hne (.inr hsub))
  simp only [evaluate, hnone]
  rfl

theorem mem_keys_evaluateBeanConditions :
    cls ∈ (evaluateBeanConditions declarations registry).registrations.keys ↔
      cls ∈ registry.registrations.keys ∧
        shouldInclude declarations registry true cls = true := by
  unfold evaluateBeanConditions
  rw [mem_keys_removeWhere, Bool.not_eq_false']

/-- Of fallbacks which are alone with their type, the one other than the type
itself passes, and the type only without one. -/
theorem Settled.existsUnique_candidate (h : Settled declarations registry)
    (hsome : ∃ cls ∈ registry.registrations.keys,
      Candidate declarations cls type)
    (hall : ∀ cls ∈ registry.registrations.keys,
      declarations.OfType cls type → Candidate declarations cls type) :
    ∃! cls, cls ∈ (evaluateBeanConditions declarations
        registry).registrations.keys ∧ Candidate declarations cls type := by
  by_cases hother : ∃ cls ∈ registry.registrations.keys,
      cls ≠ type ∧ Candidate declarations cls type
  · obtain ⟨cls, hkey, hne, hcls⟩ := hother
    have halone : ∀ other ∈ registry.registrations.keys, other ≠ type →
        declarations.OfType other type → other = cls :=
      fun other hkey' hne' htype =>
        h.uncontested type hall other hkey' cls hkey hne' htype hne hcls.ofType
    refine ⟨cls, ⟨mem_keys_evaluateBeanConditions.mpr
      ⟨hkey, hcls.shouldInclude halone⟩, hcls⟩, ?_⟩
    rintro other ⟨hother, hcandidate⟩
    obtain ⟨hkey', hpasses⟩ := mem_keys_evaluateBeanConditions.mp hother
    by_contra hdiffers
    have htype : other ≠ type → other = cls := fun hne' =>
      halone other hkey' hne' hcandidate.ofType
    exact hne (eq_of_onMissingBean hpasses hcandidate.guarded hkey
      (Ne.symm hdiffers) hcls.ofType)
  · push Not at hother
    obtain ⟨cls, hkey, hcls⟩ := hsome
    have htype : cls = type := by
      by_contra hne
      exact hother cls hkey hne hcls
    refine ⟨cls, ⟨mem_keys_evaluateBeanConditions.mpr
      ⟨hkey, hcls.shouldInclude ?_⟩, hcls⟩, ?_⟩
    · intro other hkey' hne' htype'
      exact absurd (hall other hkey' htype') (hother other hkey' hne')
    · rintro other ⟨hother', hcandidate⟩
      have hkey' := (mem_keys_evaluateBeanConditions.mp hother').1
      by_contra hne
      exact hother other hkey' (fun hsame => hne (hsame.trans htype.symm))
        hcandidate

theorem SelfConsistent.uncontested (h : SelfConsistent declarations registry
      (evaluateBeanConditions declarations registry))
    (hall : ∀ cls ∈ registry.registrations.keys,
      declarations.OfType cls type → Candidate declarations cls type)
    {other : TypeExpr κ} (hcls : cls ∈ registry.registrations.keys)
    (hother : other ∈ registry.registrations.keys) (hne : cls ≠ type)
    (htype : declarations.OfType cls type) (hne' : other ≠ type)
    (htype' : declarations.OfType other type) : cls = other := by
  obtain ⟨left, ⟨hleft, hcandidate⟩, _⟩ :=
    h.fallback type ⟨cls, hcls, hall cls hcls htype⟩ hall
  have hpasses := (mem_keys_evaluateBeanConditions.mp hleft).2
  have hseen : ∀ seen ∈ registry.registrations.keys, seen ≠ type →
      declarations.OfType seen type → seen = left := by
    intro seen hkey hseen htype
    by_contra hdiffers
    exact hseen (eq_of_onMissingBean hpasses hcandidate.guarded hkey hdiffers
      htype)
  exact (hseen cls hcls hne htype).trans
    (hseen other hother hne' htype').symm

/-- The bean pass ends in a consistent registry if and only if the conditions
were settled when it began. -/
theorem selfConsistent_iff_settled (declarations : Declarations κ)
    (registry : Registry κ) :
    SelfConsistent declarations registry
        (evaluateBeanConditions declarations registry) ↔
      Settled declarations registry := by
  constructor
  · intro h
    refine ⟨?_, ?_, ?_⟩
    · intro cls hkey hpasses type hcondition hfail
      obtain ⟨other, hother, hne, htype⟩ := h.onBean cls
        (mem_keys_evaluateBeanConditions.mpr ⟨hkey, hpasses⟩) type hcondition
      obtain ⟨hkey', hpasses'⟩ := mem_keys_evaluateBeanConditions.mp hother
      exact absurd (hfail other hkey' hne htype) (Bool.not_eq_false _ ▸ hpasses')
    · intro cls hkey hpasses type hcondition hne hkey'
      by_contra hpasses'
      exact h.onMissingBean cls
        (mem_keys_evaluateBeanConditions.mpr ⟨hkey, hpasses⟩) type hcondition
        type (mem_keys_evaluateBeanConditions.mpr
          ⟨hkey', Bool.not_eq_false _ ▸ hpasses'⟩) hne (.inl rfl)
    · intro type hall cls hcls other hother hne htype hne' htype'
      exact h.uncontested hall hcls hother hne htype hne' htype'
  · intro h
    refine ⟨?_, ?_, fun type => h.existsUnique_candidate⟩
    · intro cls hcls type hcondition
      obtain ⟨hkey, hpasses⟩ := mem_keys_evaluateBeanConditions.mp hcls
      have hsome := h.supported cls hkey hpasses type hcondition
      push Not at hsome
      obtain ⟨other, hkey', hne, htype, hpasses'⟩ := hsome
      exact ⟨other, mem_keys_evaluateBeanConditions.mpr
        ⟨hkey', Bool.not_eq_false _ ▸ hpasses'⟩, hne, htype⟩
    · intro cls hcls type hcondition other hother hne htype
      obtain ⟨hkey, hpasses⟩ := mem_keys_evaluateBeanConditions.mp hcls
      obtain ⟨hkey', hpasses'⟩ := mem_keys_evaluateBeanConditions.mp hother
      obtain rfl : other = type :=
        eq_of_onMissingBean hpasses hcondition hkey' hne htype
      rw [h.unclaimed cls hkey hpasses other hcondition hne hkey'] at hpasses'
      cases hpasses'

/-- Two caches, each of them for the case that there is no other. -/
def cacheDeclarations : Declarations String where
  profile _ := []
  condition _ := none
  conditions cls :=
    if cls = .cls "MemoryCache" ∨ cls = .cls "RedisCache" then
      [.onMissingBean (.cls "Cache")]
    else []
  property _ := none
  lower text := text
  importable _ := false
  issubclass cls type := some (decide (cls = type ∨
    type = .cls "Cache" ∧
      (cls = .cls "MemoryCache" ∨ cls = .cls "RedisCache")))

/-- Both of them are removed. -/
theorem not_selfConsistent_caches :
    let classes : Classes String Empty :=
      Classes.plain (fun _ => []) fun _ => []
    let registry := register classes (.cls "RedisCache") .singleton ""
      (register classes (.cls "MemoryCache") .singleton "" Registry.empty)
    ¬ SelfConsistent cacheDeclarations registry
      (evaluateBeanConditions cacheDeclarations registry) := by
  intro classes registry h
  have hkeys : registry.registrations.keys =
      [.cls "MemoryCache", .cls "RedisCache"] := by decide
  have hnone : (evaluateBeanConditions cacheDeclarations
      registry).registrations.keys = [] := by decide
  have hcandidate : ∀ cls ∈ registry.registrations.keys,
      Candidate cacheDeclarations cls (.cls "Cache") := by
    intro cls hcls
    rw [hkeys, mem_cons, mem_singleton] at hcls
    obtain rfl | rfl := hcls
    · exact ⟨.inr rfl, by decide, by decide⟩
    · exact ⟨.inr rfl, by decide, by decide⟩
  have hfirst : .cls "MemoryCache" ∈ registry.registrations.keys := by decide
  obtain ⟨cls, ⟨hcls, _⟩, _⟩ := h.fallback (.cls "Cache")
    ⟨_, hfirst, hcandidate _ hfirst⟩ fun cls hcls _ => hcandidate cls hcls
  rw [hnone] at hcls
  cases hcls

end Consistency

end PyFly.Container
