import PyFly.FilteredQueries
import PyFly.PublishedBeans

/-!
# Implementations of an interface

An interface has implementations which are scanned, bound, or made by methods
of configurations.  The first method which makes one also claims the interface
itself.  `resolve` picks the only implementation, or the primary one, whatever
the order of the methods, exactly when at most one implementation is primary,
the one to be picked is registered, and all methods make that one object.
-/

namespace PyFly.Container

open Library List

variable {κ ε : Type} [DecidableEq κ]

/-! ## Implementations -/

def Introduces (interfaces : Interfaces κ) (type : TypeExpr κ) :
    Introduction κ → TypeExpr κ → Prop
  | .scanned cls, impl => cls = impl ∧ type ∈ interfaces.ports cls
  | .bound interface cls, impl => interface = type ∧ cls = impl
  | .registered _ _, _ => False

structure Sources (type : TypeExpr κ) where
  script : List (Introduction κ)
  products : List (Product κ)
  nextBean : ℕ
  interface : ∀ step ∈ script, step.implementation ≠ type
  declared : ∀ product ∈ products, product.returnType = type
  concrete : ∀ product ∈ products, product.bean.type ≠ type
  fresh : ∀ product ∈ products, product.bean.id < nextBean

section Sources

variable {type : TypeExpr κ} (classes : Classes κ ε)
variable (interfaces : Interfaces κ) (sources : Sources type)

def Sources.Implements (impl : TypeExpr κ) : Prop :=
  (∃ step ∈ sources.script, Introduces interfaces type step impl) ∨
    ∃ product ∈ sources.products, product.bean.type = impl

def Sources.scanned (request : Option (Dict String (Bean κ))) : Context κ where
  registry := introduceAll classes interfaces sources.script
  beans := { Beans.initial request with nextBean := sources.nextBean }

/-- The container after the methods were called in a certain order. -/
def Sources.context (order : List (Product κ))
    (request : Option (Dict String (Bean κ))) : Context κ :=
  order.foldl (publish classes) (sources.scanned classes interfaces request)

def lastInjected (beans : Beans κ) : Option (Bean κ) :=
  match beans.events.getLast? with
  | some (.injected none _ _ _ bean) => some bean
  | _ => none

/-- The object `resolve` returns, or its exception. -/
def lookup (context : Context κ) (depth : ℕ) (type : TypeExpr κ) :
    Option (Except (Failure κ ε) (Option (Bean κ))) :=
  (call classes context.registry depth
    (resolve classes context.registry .outermost type) context.beans).map
      fun answered => answered.1.map fun _ => lastInjected answered.2

/-- `resolve` returns what it returns for the implementation. -/
def Returns (context : Context κ) (type impl : TypeExpr κ) : Prop :=
  impl ∈ context.registry.registrations.keys ∧ ∀ code depth,
    lookup (classes.withCode code) context depth type =
      lookup (classes.withCode code) context depth impl

/-- `resolve` picks the only implementation, or the primary one of several, or
reports that none is, in whatever order the methods are called. -/
structure PicksImplementation : Prop where
  unique : ∀ order, order.Perm sources.products → ∀ request impl,
    (∀ cls, sources.Implements interfaces cls ↔ cls = impl) →
      Returns classes (sources.context classes interfaces order request) type impl
  primary : ∀ order, order.Perm sources.products → ∀ request cls impl,
    sources.Implements interfaces cls → sources.Implements interfaces impl →
      cls ≠ impl → classes.isPrimary impl = true →
        Returns classes (sources.context classes interfaces order request) type impl
  ambiguous : ∀ order, order.Perm sources.products → ∀ request cls impl,
    sources.Implements interfaces cls → sources.Implements interfaces impl → cls ≠ impl →
      (∀ cls, sources.Implements interfaces cls → classes.isPrimary cls = false) →
        ∃ candidates, (∀ cls, cls ∈ candidates ↔ sources.Implements interfaces cls) ∧
          ∀ code depth, lookup (classes.withCode code)
              (sources.context classes interfaces order request) depth type =
                some (.error (.noUniqueBean type candidates))
  orderless : ∀ order, order.Perm sources.products → ∀ request code depth,
      lookup (classes.withCode code)
          (sources.context classes interfaces order request) depth type =
        lookup (classes.withCode code)
          (sources.context classes interfaces sources.products request) depth
          type

structure Sources.Sole (impl : TypeExpr κ) : Prop where
  implements : sources.Implements interfaces impl
  sole : (∀ cls, sources.Implements interfaces cls → cls = impl) ∨
    (classes.isPrimary impl = true ∧ ∀ cls, sources.Implements interfaces cls →
        classes.isPrimary cls = true → cls = impl)

/-- At most one implementation is primary; the one which should be picked is
registered; and each method makes the same object of it, a singleton. -/
structure Unambiguous : Prop where
  primaries : ∀ cls impl, sources.Implements interfaces cls →
    sources.Implements interfaces impl → classes.isPrimary cls = true →
      classes.isPrimary impl = true → cls = impl
  registered : ∀ impl, sources.Sole classes interfaces impl →
    impl ∈ (introduceAll classes interfaces sources.script).registrations.keys ∨
      ∃ product ∈ sources.products, product.bean.type = impl
  produced : ∀ product ∈ sources.products, product.scope = .singleton ∧
      (classes.beanScope type).getD .singleton = .singleton ∧
      (classes.beanScope product.bean.type).getD .singleton = .singleton ∧
      sources.Sole classes interfaces product.bean.type ∧
      ∀ other ∈ sources.products, other.bean = product.bean

end Sources

section Bound

variable {classes : Classes κ ε} {interfaces : Interfaces κ}
variable {type : TypeExpr κ}

theorem mem_impls_bind {interface implementation cls : TypeExpr κ} {registry : Registry κ} :
    cls ∈ (bind interface implementation registry).impls type ↔
      cls ∈ registry.impls type ∨ (interface = type ∧ implementation = cls) := by
  rw [impls_bind]
  split
  · rename_i h
    rw [mem_append, mem_singleton]
    exact or_congr_right ⟨fun hnew => ⟨h.1.symm, hnew.symm⟩, fun hnew => hnew.2.symm⟩
  · rename_i h
    refine ⟨.inl, fun hnew => hnew.elim id ?_⟩
    rintro ⟨rfl, rfl⟩
    by_contra hmem
    exact h ⟨rfl, hmem⟩

theorem nodup_impls_bind {interface implementation : TypeExpr κ}
    {registry : Registry κ} (h : (registry.impls type).Nodup) :
    ((bind interface implementation registry).impls type).Nodup := by
  rw [impls_bind]
  split
  · rename_i hnew
    refine List.Nodup.append h (nodup_singleton _) ?_
    rw [disjoint_singleton]
    exact hnew.2
  · exact h

theorem impls_autoBindInterfaces (interfaces : Interfaces κ)
    (impl : TypeExpr κ) (registry : Registry κ) :
    (∀ cls, cls ∈ (autoBindInterfaces interfaces impl registry).impls type ↔
      cls ∈ registry.impls type ∨ (impl = cls ∧ type ∈ interfaces.ports impl)) ∧
    ((registry.impls type).Nodup →
      ((autoBindInterfaces interfaces impl registry).impls type).Nodup) := by
  unfold autoBindInterfaces
  induction interfaces.ports impl generalizing registry with
  | nil => simp
  | cons port ports ih =>
    obtain ⟨hmem, hnodup⟩ := ih (bind port impl registry)
    rw [foldl_cons]
    refine ⟨fun cls => ?_, fun h => hnodup (nodup_impls_bind h)⟩
    rw [hmem, mem_impls_bind, mem_cons, or_assoc]
    refine or_congr_right ?_
    constructor
    · rintro (⟨rfl, rfl⟩ | ⟨rfl, hport⟩)
      · exact ⟨rfl, .inl rfl⟩
      · exact ⟨rfl, .inr hport⟩
    · rintro ⟨rfl, rfl | hport⟩
      · exact .inl ⟨rfl, rfl⟩
      · exact .inr ⟨rfl, hport⟩

theorem impls_introduce (classes : Classes κ ε) (interfaces : Interfaces κ)
    (type : TypeExpr κ) (registry : Registry κ) (step : Introduction κ) :
    (∀ cls, cls ∈ (introduce classes interfaces registry step).impls type ↔
      cls ∈ registry.impls type ∨ Introduces interfaces type step cls) ∧
    ((registry.impls type).Nodup →
      ((introduce classes interfaces registry step).impls type).Nodup) := by
  cases step with
  | scanned impl =>
    exact impls_autoBindInterfaces interfaces impl
      (register classes impl ((classes.beanScope impl).getD .singleton)
        (classes.beanName impl) registry)
  | registered impl scope => exact ⟨fun cls => (or_iff_left id).symm, id⟩
  | bound interface impl =>
    exact ⟨fun cls => mem_impls_bind, nodup_impls_bind⟩

theorem impls_introduceAll (classes : Classes κ ε)
    (interfaces : Interfaces κ) (script : List (Introduction κ)) :
    (∀ cls, cls ∈ (introduceAll classes interfaces script).impls type ↔
      ∃ step ∈ script, Introduces interfaces type step cls) ∧
    ((introduceAll classes interfaces script).impls type).Nodup := by
  induction script using List.reverseRecOn with
  | nil => exact ⟨fun cls => by simp [introduceAll, Registry.impls,
      Registry.empty], nodup_nil⟩
  | append_singleton script step ih =>
    unfold introduceAll at ih ⊢
    rw [foldl_append, foldl_cons, foldl_nil]
    obtain ⟨hmem, hnodup⟩ := impls_introduce classes interfaces type
      (script.foldl (introduce classes interfaces) Registry.empty) step
    refine ⟨fun cls => ?_, hnodup ih.2⟩
    rw [hmem, ih.1]
    constructor
    · rintro (⟨old, hold, hcls⟩ | hcls)
      · exact ⟨old, mem_append_left _ hold, hcls⟩
      · exact ⟨step, by simp, hcls⟩
    · rintro ⟨other, hother, hcls⟩
      obtain hold | hnew := mem_append.mp hother
      · exact .inl ⟨other, hold, hcls⟩
      · rw [mem_singleton] at hnew
        exact .inr (hnew ▸ hcls)

end Bound

section Lookup

variable {classes : Classes κ ε} {context : Context κ}
variable {type cls : TypeExpr κ}

theorem lookup_of_ask {reg : Registration κ} {key : Key κ}
    (hresolve : resolve classes context.registry .outermost type =
      Async.ask (.resolve .outermost key reg)) (depth : ℕ) :
    lookup classes context depth type = (resolveRegistration classes context.registry depth reg
        context.beans).map fun answered => answered.1.map some := by
  unfold lookup call
  rw [hresolve]
  cases hanswer : resolveRegistration classes context.registry depth reg context.beans with
  | none =>
    have hquery : answerQuery classes context.registry
        (resolveRegistration classes context.registry depth) none
        (.resolve .outermost key reg) context.beans = none := by
      show (resolveRegistration classes context.registry depth reg context.beans).map _ = none
      rw [hanswer]
      rfl
    have hperform : Coroutine.perform (answerQuery classes context.registry
          (resolveRegistration classes context.registry depth) none)
        (Async.ask (.resolve .outermost key reg) :
          Resolving κ ε (TypeExpr κ)) context.beans = none := by
      show (answerQuery _ _ _ _ _ _).bind _ = none
      rw [hquery]
      rfl
    rw [hperform]
    rfl
  | some answered =>
    have hperform : Coroutine.perform (answerQuery classes context.registry
          (resolveRegistration classes context.registry depth) none)
        (Async.ask (.resolve .outermost key reg) : Resolving κ ε (TypeExpr κ)) context.beans =
        some (deliver none .outermost key reg answered) :=
      Coroutine.perform_await_eq_some.mpr ⟨_, _,
        answerQuery_resolve_of_some hanswer none .outermost key, rfl⟩
    rw [hperform]
    obtain ⟨result, after⟩ := answered
    cases result with
    | error failure => rfl
    | ok bean => simp [deliver, lastInjected, Except.map]

theorem lookup_of_get? {reg : Registration κ}
    (h : context.registry.registrations.get? type = some reg) (depth : ℕ) :
    lookup classes context depth type = (resolveRegistration classes context.registry depth reg
        context.beans).map fun answered => answered.1.map some := by
  have hresolve : resolve classes context.registry .outermost type =
      Async.ask (.resolve .outermost (.type type) reg) := by
    unfold resolve
    rw [h]
  exact lookup_of_ask hresolve depth

theorem lookup_of_stored {bean : Bean κ}
    (h : Stored context cls .singleton (some bean)) (depth : ℕ) :
    lookup classes context depth cls = if depth = 0 then none else some (.ok (some bean)) := by
  obtain ⟨reg, hreg, hscope, hinstance⟩ := h
  rw [lookup_of_get? hreg]
  cases depth with
  | zero => rfl
  | succ depth =>
    have hheld : (held classes context.beans reg :
        Option (Except (Failure κ ε) (Bean κ))) = some (.ok bean) := by
      unfold held
      simp [hscope, hinstance]
    rw [resolveRegistration, hheld]
    rfl

variable {impl : TypeExpr κ}

omit [DecidableEq κ] in
theorem eq_of_mem_of_length_le {impls : List (TypeExpr κ)}
    (hnodup : impls.Nodup) (hmem : impl ∈ impls)
    (hall : ∀ other ∈ impls, other = impl) : impls = [impl] := by
  cases impls with
  | nil => cases hmem
  | cons head impls =>
    obtain rfl := hall head mem_cons_self
    have hnone : impls = [] := by
      rw [eq_nil_iff_forall_not_mem]
      intro other hother
      have hsame := hall other (mem_cons_of_mem _ hother)
      rw [hsame] at hother
      exact (nodup_cons.mp hnodup).1 hother
    rw [hnone]

theorem resolve_of_taken {registry : Registry κ} (slot : Slot)
    (hreg : registry.registrations.get? type = none)
    (htaken : Taken classes.isPrimary (registry.impls type) impl) :
    resolve classes registry slot type = resolveImpl registry slot (.type type) impl := by
  obtain honly | hfind := htaken
  · unfold Registry.impls at honly
    unfold resolve
    rw [hreg]
    dsimp only
    rw [honly]
  · exact resolve_of_primary slot hreg hfind

theorem returns_of_taken (hreg : context.registry.registrations.get? type = none)
    (htaken : Taken classes.isPrimary (context.registry.impls type) impl)
    (hkey : impl ∈ context.registry.registrations.keys) :
    Returns classes context type impl := by
  refine ⟨hkey, fun code depth => ?_⟩
  obtain ⟨reg, himpl⟩ := Dict.mem_keys_iff.mp hkey
  have htaken' : Taken (classes.withCode code).isPrimary
      (context.registry.impls type) impl := htaken
  have hresolve : resolve (classes.withCode code) context.registry .outermost
      type = Async.ask (.resolve .outermost (.type type) reg) := by
    rw [resolve_of_taken .outermost hreg htaken']
    unfold resolveImpl
    rw [himpl]
  rw [lookup_of_ask hresolve, lookup_of_get? himpl]

theorem returns_of_stored {bean : Bean κ} (htype : Stored context type .singleton (some bean))
    (himpl : Stored context impl .singleton (some bean)) :
    Returns classes context type impl := by
  refine ⟨himpl.mem_keys, fun code depth => ?_⟩
  rw [lookup_of_stored htype, lookup_of_stored himpl]

end Lookup

section Picked

variable {classes : Classes κ ε} {interfaces : Interfaces κ}
variable {type : TypeExpr κ} {sources : Sources type}

theorem exists_step_of_mem_keys {script : List (Introduction κ)} {cls : TypeExpr κ}
    (h : cls ∈ (introduceAll classes interfaces script).registrations.keys) :
    ∃ step ∈ script, step.implementation = cls := by
  induction script using List.reverseRecOn with
  | nil => cases h
  | append_singleton script step ih =>
    unfold introduceAll at ih h
    rw [foldl_append, foldl_cons, foldl_nil] at h
    have hcases : step.implementation = cls ∨ cls ∈ (script.foldl (introduce classes interfaces)
          Registry.empty).registrations.keys := by
      by_cases hstep : ∃ interface implementation, step = .bound interface implementation
      · obtain ⟨interface, implementation, rfl⟩ := hstep
        exact .inr h
      · push Not at hstep
        rw [(introduce_files classes interfaces hstep _).registrations] at h
        exact (Dict.mem_keys_set.mp h).imp_left Eq.symm
    obtain hnew | hold := hcases
    · exact ⟨step, by simp, hnew⟩
    · obtain ⟨old, hmem, himpl⟩ := ih hold
      exact ⟨old, mem_append_left _ hmem, himpl⟩

theorem Sources.not_mem_keys (classes : Classes κ ε)
    (interfaces : Interfaces κ) (sources : Sources type) :
    type ∉ (introduceAll classes interfaces sources.script).registrations.keys := by
  intro h
  obtain ⟨step, hstep, himpl⟩ := exists_step_of_mem_keys h
  exact sources.interface step hstep himpl

variable {impl : TypeExpr κ}

theorem Sources.Implements.ne (h : sources.Implements interfaces impl) : impl ≠ type := by
  obtain ⟨step, hstep, himpl⟩ | ⟨product, hproduct, rfl⟩ := h
  · have hsame : step.implementation = impl := by
      cases step with
      | scanned cls => exact himpl.1
      | registered cls scope => cases himpl
      | bound interface cls => exact himpl.2
    rw [← hsame]
    exact sources.interface step hstep
  · exact sources.concrete product hproduct

theorem Sources.Sole.eq {impl' : TypeExpr κ} (h : sources.Sole classes interfaces impl)
    (h' : sources.Sole classes interfaces impl') : impl = impl' := by
  obtain honly | ⟨hprimary, _⟩ := h.sole
  · exact (honly impl' h'.implements).symm
  · obtain honly | ⟨_, hunique⟩ := h'.sole
    · exact honly impl h.implements
    · exact hunique impl h.implements hprimary

theorem Sources.mem_impls (hnone : sources.products = []) {cls : TypeExpr κ} :
    cls ∈ (introduceAll classes interfaces sources.script).impls type ↔
      sources.Implements interfaces cls := by
  rw [(impls_introduceAll classes interfaces sources.script).1]
  unfold Sources.Implements
  rw [hnone]
  simp

/-- Without methods, the implementation to be picked is the one `resolve`
takes. -/
theorem Sources.Sole.taken (hnone : sources.products = [])
    (h : sources.Sole classes interfaces impl) :
    Taken classes.isPrimary
      ((introduceAll classes interfaces sources.script).impls type) impl := by
  have hmem : impl ∈ (introduceAll classes interfaces sources.script).impls type :=
    (Sources.mem_impls hnone).mpr h.implements
  obtain honly | ⟨hprimary, hunique⟩ := h.sole
  · exact .inl (eq_of_mem_of_length_le
      (impls_introduceAll classes interfaces sources.script).2 hmem
      fun other hother => honly other ((Sources.mem_impls hnone).mp hother))
  · right
    cases hfind : ((introduceAll classes interfaces sources.script).impls
        type).find? classes.isPrimary with
    | none =>
      rw [List.find?_eq_none] at hfind
      exact absurd hprimary (hfind impl hmem)
    | some found =>
      have hfound := (Sources.mem_impls hnone).mp (mem_of_find?_eq_some hfind)
      rw [hunique found hfound (List.find?_some hfind)]

theorem Sources.stored_first (classes : Classes κ ε)
    (interfaces : Interfaces κ) {product : Product κ}
    {rest : List (Product κ)}
    (horder : (product :: rest).Perm sources.products)
    (request : Option (Dict String (Bean κ))) :
    Stored (sources.context classes interfaces (product :: rest) request) type
      ((classes.beanScope type).getD product.scope) product.instance? := by
  have hdeclared := sources.declared product (horder.mem_iff.mp mem_cons_self)
  have hfree : product.returnType ∉ (sources.scanned classes interfaces
      request).registry.registrations.keys := by
    rw [hdeclared]
    exact sources.not_mem_keys classes interfaces
  have hstored := stored_foldl_publish_returnType classes hfree
    fun other (hother : other ∈ product :: rest) => by
      rw [hdeclared]
      exact sources.concrete other (horder.mem_iff.mp hother)
  rw [hdeclared] at hstored
  exact hstored

theorem Unambiguous.stored (h : Unambiguous classes interfaces sources)
    {order : List (Product κ)} (horder : order.Perm sources.products)
    {product : Product κ} (hproduct : product ∈ sources.products)
    (request : Option (Dict String (Bean κ))) :
    Stored (sources.context classes interfaces order request) type .singleton
        (some product.bean) ∧
      Stored (sources.context classes interfaces order request)
        product.bean.type .singleton (some product.bean) := by
  obtain ⟨_, htypeScope, hbeanScope, _, hsame⟩ := h.produced product hproduct
  have hinstance : ∀ other ∈ order, other.scope = .singleton ∧
      other.instance? = some product.bean := by
    intro other hother
    have hmem := horder.mem_iff.mp hother
    have hscope := (h.produced other hmem).1
    refine ⟨hscope, ?_⟩
    unfold Product.instance?
    rw [if_pos hscope, hsame other hmem]
  constructor
  · cases order with
    | nil =>
      rw [nil_perm.mp horder] at hproduct
      cases hproduct
    | cons first rest =>
      obtain ⟨hscope, hfirst⟩ := hinstance first mem_cons_self
      have hstored :=
        sources.stored_first classes interfaces horder request
      rw [hscope, hfirst, htypeScope] at hstored
      exact hstored
  · obtain ⟨last, hlast, _, hstored⟩ := stored_foldl_publish_type classes
      (sources.scanned classes interfaces request)
      ⟨product, horder.mem_iff.mpr hproduct, rfl⟩
    obtain ⟨hscope, hinst⟩ := hinstance last hlast
    rw [hscope, hinst, hbeanScope] at hstored
    exact hstored

theorem Unambiguous.returns (h : Unambiguous classes interfaces sources)
    {order : List (Product κ)} (horder : order.Perm sources.products)
    (request : Option (Dict String (Bean κ)))
    (hsole : sources.Sole classes interfaces impl) :
    Returns classes (sources.context classes interfaces order request) type
      impl := by
  by_cases hnone : sources.products = []
  · rw [hnone, perm_nil] at horder
    subst horder
    refine returns_of_taken ?_ (hsole.taken hnone) ?_
    · exact Dict.get?_eq_none_iff.mpr (sources.not_mem_keys classes interfaces)
    · obtain hkey | ⟨product, hproduct, _⟩ := h.registered impl hsole
      · exact hkey
      · rw [hnone] at hproduct
        cases hproduct
  · obtain ⟨product, hproduct⟩ := exists_mem_of_ne_nil _ hnone
    obtain ⟨htype, hbean⟩ := h.stored horder hproduct request
    rw [← (h.produced product hproduct).2.2.2.1.eq hsole]
    exact returns_of_stored htype hbean

theorem lookup_of_throw {context : Context κ} {failure : Failure κ ε}
    (h : resolve classes context.registry .outermost type = Async.throw failure) (depth : ℕ) :
    lookup classes context depth type = some (.error failure) := by
  unfold lookup call
  rw [h]
  rfl

theorem Unambiguous.ambiguous (h : Unambiguous classes interfaces sources)
    {cls : TypeExpr κ} (hcls : sources.Implements interfaces cls)
    (himpl : sources.Implements interfaces impl) (hne : cls ≠ impl)
    (hprimary : ∀ cls, sources.Implements interfaces cls → classes.isPrimary cls = false)
    (request : Option (Dict String (Bean κ))) :
    sources.products = [] ∧ ∀ code depth, lookup (classes.withCode code)
        (sources.scanned classes interfaces request) depth type =
          some (.error (.noUniqueBean type
            ((introduceAll classes interfaces sources.script).impls type))) := by
  have hnone : sources.products = [] := by
    by_contra hsome
    obtain ⟨product, hproduct⟩ := exists_mem_of_ne_nil _ hsome
    have hsole := (h.produced product hproduct).2.2.2.1
    obtain honly | ⟨hpicked, _⟩ := hsole.sole
    · exact hne ((honly cls hcls).trans (honly impl himpl).symm)
    · rw [hprimary _ hsole.implements] at hpicked
      cases hpicked
  refine ⟨hnone, fun code depth => lookup_of_throw ?_ depth⟩
  have hreg : (introduceAll classes interfaces sources.script).registrations.get? type = none :=
    Dict.get?_eq_none_iff.mpr (sources.not_mem_keys classes interfaces)
  have hmem : ∀ {other}, sources.Implements interfaces other → other ∈
      (introduceAll classes interfaces sources.script).impls type :=
    fun hother => (Sources.mem_impls hnone).mpr hother
  obtain ⟨hempty, _⟩ | ⟨taken, htaken, _⟩ | ⟨_, hresolve⟩ :=
    @resolve_interface _ _ _ (classes.withCode code) _ .outermost type hreg
  · have hcls' := hmem hcls
    rw [hempty] at hcls'
    cases hcls'
  · obtain honly | hfind := htaken
    · have hcls' := hmem hcls
      have himpl' := hmem himpl
      rw [honly, mem_singleton] at hcls' himpl'
      exact absurd (hcls'.trans himpl'.symm) hne
    · have hpicked := List.find?_some hfind
      rw [show (classes.withCode code).isPrimary taken = false from
        hprimary taken ((Sources.mem_impls hnone).mp (mem_of_find?_eq_some hfind))] at hpicked
      cases hpicked
  · exact hresolve

theorem Unambiguous.picksImplementation (h : Unambiguous classes interfaces sources) :
    PicksImplementation classes interfaces sources where
  unique order horder request impl himpl :=
    h.returns horder request ⟨(himpl impl).mpr rfl, .inl fun cls hcls => (himpl cls).mp hcls⟩
  primary order horder request cls impl _ himpl _ hprimary :=
    h.returns horder request ⟨himpl, .inr ⟨hprimary, fun cls hcls hcls' =>
      h.primaries cls impl hcls himpl hcls' hprimary⟩⟩
  ambiguous order horder request cls impl hcls himpl hne hprimary := by
    obtain ⟨hnone, hlookup⟩ := h.ambiguous hcls himpl hne hprimary request
    rw [hnone, perm_nil] at horder
    subst horder
    exact ⟨_, fun other => Sources.mem_impls hnone, hlookup⟩
  orderless order horder request code depth := by
    by_cases hnone : sources.products = []
    · have horder' := horder
      rw [hnone, perm_nil] at horder'
      rw [horder', hnone]
    · obtain ⟨product, hproduct⟩ := exists_mem_of_ne_nil _ hnone
      rw [lookup_of_stored (h.stored horder hproduct request).1,
        lookup_of_stored (h.stored (.refl _) hproduct request).1]

end Picked

section Fetched

variable {classes : Classes κ ε} {interfaces : Interfaces κ}
variable {type : TypeExpr κ} {sources : Sources type}

structure Idle (beans : Beans κ) (next : ℕ) : Prop where
  request : beans.request = some Dict.empty
  resolving : beans.resolving = []
  nextBean : beans.nextBean = next

theorem Idle.foldl_publish {context : Context κ} {next : ℕ}
    (h : Idle context.beans next) (order : List (Product κ)) :
    Idle (order.foldl (publish classes) context).beans next := by
  induction order generalizing context with
  | nil => exact h
  | cons product order ih =>
    refine ih ?_
    unfold publish
    dsimp only
    split
    · rw [beans_bindProduct]
      exact ⟨h.request, h.resolving, h.nextBean⟩
    · refine ⟨?_, ?_, ?_⟩
      · show (Context.bindProduct _ _).beans.request = _
        rw [beans_bindProduct]
        exact h.request
      · show (Context.bindProduct _ _).beans.resolving = _
        rw [beans_bindProduct]
        exact h.resolving
      · show (Context.bindProduct _ _).beans.nextBean = _
        rw [beans_bindProduct]
        exact h.nextBean

theorem Sources.idle (classes : Classes κ ε) (interfaces : Interfaces κ)
    (sources : Sources type) (order : List (Product κ)) :
    Idle (sources.context classes interfaces order (some Dict.empty)).beans sources.nextBean :=
  Idle.foldl_publish ⟨rfl, rfl, rfl⟩ order

def fetched (scope : Scope) (bean : Option (Bean κ)) (fresh : Bean κ) : Bean κ :=
  match scope with
  | .singleton => bean.getD fresh
  | _ => fresh

variable {scope : Scope} {bean : Option (Bean κ)}

theorem lookup_of_idle (classes : Classes κ ε) {context : Context κ} {next : ℕ}
    (hidle : Idle context.beans next) {cls : TypeExpr κ}
    (h : Stored context cls scope bean) :
    lookup (classes.withCode .independent) context 1 cls =
      some (.ok (some (fetched scope bean ⟨next, cls⟩))) := by
  obtain ⟨reg, hreg, hscope, hinstance⟩ := h
  have himpl : reg.implType = cls :=
    context.registry.keyed (cls, reg) (Dict.get?_eq_some_iff.mp hreg)
  rw [lookup_of_get? hreg]
  have hmade : (held (classes.withCode .independent) context.beans reg :
      Option (Except (Failure κ ε) (Bean κ))) = none →
      (resolveRegistration (classes.withCode .independent) context.registry 1
        reg context.beans).map (fun answered => answered.1.map some) =
          some (.ok (some ⟨next, cls⟩)) := by
    intro hnone
    have hmem : reg.implType ∉ context.beans.resolving := by
      rw [hidle.resolving]
      exact not_mem_nil
    rw [resolveRegistration_of_none hnone, createInstance_of_not_mem hmem,
      creation_independent, hidle.nextBean, ← himpl]
    rfl
  cases hheld : (held (classes.withCode .independent) context.beans reg :
      Option (Except (Failure κ ε) (Bean κ))) with
  | none =>
    rw [hmade hheld]
    unfold held at hheld
    rw [hscope] at hheld
    cases scope with
    | singleton =>
      simp only [hinstance, Option.map_eq_none_iff] at hheld
      rw [hheld]
      rfl
    | transient => rfl
    | request => rfl
  | some answer =>
    unfold held at hheld
    rw [hscope] at hheld
    cases scope with
    | singleton =>
      simp only [hinstance, Option.map_eq_some_iff] at hheld
      obtain ⟨found, rfl, rfl⟩ := hheld
      rw [resolveRegistration, show (held (classes.withCode .independent)
          context.beans reg : Option (Except (Failure κ ε) (Bean κ))) =
            some (.ok found) by unfold held; simp [hscope, hinstance]]
      rfl
    | transient => cases hheld
    | request =>
      rw [hidle.request] at hheld
      cases hheld

/-! ## What picking the implementation implies -/

omit [DecidableEq κ] in
theorem fetched_type {fresh : Bean κ} (h : ∀ found, bean = some found →
      found.type = fresh.type) :
    (fetched scope bean fresh).type = fresh.type := by
  unfold fetched
  cases scope with
  | singleton =>
    cases bean with
    | none => rfl
    | some found => exact h found rfl
  | transient => rfl
  | request => rfl

omit [DecidableEq κ] in
theorem fetched_of_ne {fresh : Bean κ} (h : fetched scope bean fresh ≠ fresh) :
    scope = .singleton ∧ bean = some (fetched scope bean fresh) := by
  unfold fetched at h ⊢
  cases scope with
  | singleton =>
    cases bean with
    | none => exact absurd rfl h
    | some found => exact ⟨rfl, rfl⟩
  | transient => exact absurd rfl h
  | request => exact absurd rfl h

variable {order : List (Product κ)}

theorem type_of_stored (horder : order.Perm sources.products)
    {request : Option (Dict String (Bean κ))} {cls : TypeExpr κ}
    (hne : cls ≠ type) {bean : Bean κ}
    (h : Stored (sources.context classes interfaces order request) cls scope
      (some bean)) : bean.type = cls := by
  by_cases hmade : ∃ product ∈ order, product.bean.type = cls
  · obtain ⟨product, _, htype, hstored⟩ := stored_foldl_publish_type classes
      (sources.scanned classes interfaces request) hmade
    have hinstance := (h.unique hstored).2
    unfold Product.instance? at hinstance
    split at hinstance
    · rw [Option.some.inj hinstance, htype]
    · cases hinstance
  · have hkey : cls ∈ (sources.scanned classes interfaces
        request).registry.registrations.keys := by
      obtain hkey | ⟨product, hproduct, htype⟩ :=
        mem_keys_foldl_publish h.mem_keys
      · exact hkey
      · obtain rfl | rfl := htype
        · exact absurd ⟨product, hproduct, rfl⟩ hmade
        · exact absurd (sources.declared product (horder.mem_iff.mp hproduct)) hne
    obtain ⟨reg, hreg⟩ := Dict.mem_keys_iff.mp hkey
    have hbase : Stored (sources.scanned classes interfaces request) cls
        reg.scope none := ⟨reg, hreg, rfl, rfl⟩
    have hlater : Stored (sources.context classes interfaces order request)
        cls reg.scope none :=
      hbase.foldl_publish fun product hproduct htype =>
        hmade ⟨product, hproduct, htype⟩
    cases (h.unique hlater).2

variable {impl : TypeExpr κ}

/-- What `resolve` returns for the interface is a bean of the implementation,
the instance of a singleton or a new one. -/
theorem Returns.fetched (horder : order.Perm sources.products) (h : Returns classes
      (sources.context classes interfaces order (some Dict.empty)) type impl)
    (hne : impl ≠ type) :
    ∃ scope bean, Stored (sources.context classes interfaces order (some Dict.empty)) impl
          scope bean ∧
        (Container.fetched scope bean ⟨sources.nextBean, impl⟩).type = impl ∧
        lookup (classes.withCode .independent)
            (sources.context classes interfaces order (some Dict.empty)) 1
            type =
          some (.ok (some (Container.fetched scope bean ⟨sources.nextBean, impl⟩))) := by
  obtain ⟨scope, bean, hstored⟩ := exists_stored h.1
  refine ⟨scope, bean, hstored, ?_, ?_⟩
  · refine fetched_type fun found hfound => ?_
    subst hfound
    exact type_of_stored horder hne hstored
  · exact (h.2 .independent 1).trans
      (lookup_of_idle classes (sources.idle classes interfaces order) hstored)

theorem PicksImplementation.primaries
    (h : PicksImplementation classes interfaces sources) {cls : TypeExpr κ}
    (hcls : sources.Implements interfaces cls)
    (himpl : sources.Implements interfaces impl)
    (hcls' : classes.isPrimary cls = true)
    (himpl' : classes.isPrimary impl = true) : cls = impl := by
  by_contra hne
  obtain ⟨scope, bean, _, htype, hlookup⟩ :=
    (h.primary _ (.refl _) (some Dict.empty) cls impl hcls himpl hne
      himpl').fetched (.refl _) himpl.ne
  obtain ⟨scope', bean', _, htype', hlookup'⟩ :=
    (h.primary _ (.refl _) (some Dict.empty) impl cls himpl hcls
      (Ne.symm hne) hcls').fetched (.refl _) hcls.ne
  rw [hlookup] at hlookup'
  injection hlookup' with hlookup'
  injection hlookup' with hlookup'
  injection hlookup' with hsame
  rw [hsame, htype'] at htype
  exact hne htype

theorem PicksImplementation.returns (h : PicksImplementation classes interfaces sources)
    (horder : order.Perm sources.products)
    (request : Option (Dict String (Bean κ)))
    (hsole : sources.Sole classes interfaces impl) :
    Returns classes (sources.context classes interfaces order request) type
      impl := by
  by_cases honly : ∀ cls, sources.Implements interfaces cls → cls = impl
  · exact h.unique order horder request impl fun cls =>
      ⟨honly cls, fun hsame => hsame ▸ hsole.implements⟩
  · obtain hall | ⟨hprimary, _⟩ := hsole.sole
    · exact absurd hall honly
    · push Not at honly
      obtain ⟨cls, hcls, hne⟩ := honly
      exact h.primary order horder request cls impl hcls hsole.implements hne hprimary

theorem PicksImplementation.exists_sole (h : PicksImplementation classes interfaces sources)
    (horder : order.Perm sources.products) {bean : Bean κ}
    (hlookup : lookup (classes.withCode .independent)
      (sources.context classes interfaces order (some Dict.empty)) 1 type =
        some (.ok (some bean))) {cls : TypeExpr κ}
    (hcls : sources.Implements interfaces cls) :
    ∃ impl, sources.Sole classes interfaces impl := by
  by_cases honly : ∀ other, sources.Implements interfaces other → other = cls
  · exact ⟨cls, hcls, .inl honly⟩
  · push Not at honly
    obtain ⟨other, hother, hne⟩ := honly
    by_cases hprimary : ∃ impl, sources.Implements interfaces impl ∧
        classes.isPrimary impl = true
    · obtain ⟨impl, himpl, himpl'⟩ := hprimary
      exact ⟨impl, himpl, .inr ⟨himpl', fun cls hcls hcls' =>
        h.primaries hcls himpl hcls' himpl'⟩⟩
    · push Not at hprimary
      obtain ⟨candidates, _, hraises⟩ := h.ambiguous order horder
        (some Dict.empty) other cls hother hcls hne
        fun impl himpl => Bool.eq_false_iff.mpr (hprimary impl himpl)
      rw [hraises] at hlookup
      cases hlookup

theorem PicksImplementation.first (h : PicksImplementation classes interfaces sources)
    {product : Product κ} {rest : List (Product κ)}
    (horder : (product :: rest).Perm sources.products) :
    product.scope = .singleton ∧ (classes.beanScope type).getD .singleton = .singleton ∧
      (classes.beanScope product.bean.type).getD .singleton = .singleton ∧
      sources.Sole classes interfaces product.bean.type ∧
      lookup (classes.withCode .independent)
          (sources.context classes interfaces (product :: rest) (some Dict.empty)) 1 type =
        some (.ok (some product.bean)) := by
  have hproduct : product ∈ sources.products :=
    horder.mem_iff.mp mem_cons_self
  have hclaim := lookup_of_idle classes (sources.idle classes interfaces (product :: rest))
    (sources.stored_first classes interfaces horder (some Dict.empty))
  obtain ⟨impl, hsole⟩ := h.exists_sole horder hclaim (.inr ⟨product, hproduct, rfl⟩)
  obtain ⟨scope, bean, hstored, htype, hlookup⟩ :=
    (h.returns horder (some Dict.empty) hsole).fetched horder hsole.implements.ne
  rw [hclaim] at hlookup
  injection hlookup with hlookup
  injection hlookup with hlookup
  injection hlookup with hsame
  -- an object of the implementation is not a new one of the interface
  have hnew : fetched ((classes.beanScope type).getD product.scope)
      product.instance? ⟨sources.nextBean, type⟩ ≠ ⟨sources.nextBean, type⟩ := by
    intro hfresh
    rw [← hsame, hfresh] at htype
    exact hsole.implements.ne htype.symm
  obtain ⟨htypeScope, hinstance⟩ := fetched_of_ne hnew
  have hscope : product.scope = .singleton := by
    by_contra hother
    unfold Product.instance? at hinstance
    rw [if_neg hother] at hinstance
    cases hinstance
  have hbean : fetched ((classes.beanScope type).getD product.scope)
      product.instance? ⟨sources.nextBean, type⟩ = product.bean := by
    have hmade : product.instance? = some product.bean := if_pos hscope
    rw [hmade] at hinstance ⊢
    exact (Option.some.inj hinstance).symm
  rw [hbean] at hclaim hsame
  rw [← hsame] at htype
  -- nor is it a new one of its own class
  have hold : fetched scope bean ⟨sources.nextBean, impl⟩ ≠ ⟨sources.nextBean, impl⟩ := by
    intro hfresh
    rw [hfresh] at hsame
    have hless := sources.fresh product hproduct
    rw [hsame] at hless
    exact lt_irrefl _ hless
  obtain ⟨last, _, hlast, hstored'⟩ := stored_foldl_publish_type classes
    (sources.scanned classes interfaces (some Dict.empty))
    ⟨product, mem_cons_self, htype⟩
  have hbeanScope : (classes.beanScope impl).getD last.scope = .singleton :=
    (hstored'.unique hstored).1.trans (fetched_of_ne hold).1
  refine ⟨hscope, ?_, ?_, htype ▸ hsole, hclaim⟩
  · rw [hscope] at htypeScope
    exact htypeScope
  · rw [htype]
    cases hsome : classes.beanScope impl with
    | none => rfl
    | some scope =>
      rw [hsome] at hbeanScope
      exact hbeanScope

theorem PicksImplementation.unambiguous (h : PicksImplementation classes interfaces sources) :
    Unambiguous classes interfaces sources where
  primaries _ _ hcls himpl hcls' himpl' :=
    h.primaries hcls himpl hcls' himpl'
  registered impl hsole := by
    have hkey := (h.returns (.refl _) none hsole).1
    obtain hkey | ⟨product, hproduct, htype⟩ := mem_keys_foldl_publish hkey
    · exact .inl hkey
    · obtain rfl | rfl := htype
      · exact .inr ⟨product, hproduct, rfl⟩
      · exact absurd (sources.declared product hproduct) hsole.implements.ne
  produced product hproduct := by
    have hfirst : ∀ product ∈ sources.products,
        (product :: sources.products.erase product).Perm sources.products :=
      fun _ hmem => (perm_cons_erase hmem).symm
    obtain ⟨hscope, htype, hbean, hsole, hlookup⟩ :=
      h.first (hfirst product hproduct)
    refine ⟨hscope, htype, hbean, hsole, fun other hother => ?_⟩
    obtain ⟨_, _, _, _, hlookup'⟩ := h.first (hfirst other hother)
    have hsame := (h.orderless _ (hfirst other hother) (some Dict.empty)
      .independent 1).trans (h.orderless _ (hfirst product hproduct) (some Dict.empty)
          .independent 1).symm
    rw [hlookup, hlookup'] at hsame
    injection hsame with hsame
    injection hsame with hsame
    injection hsame

/-- `resolve` picks the implementation it should, in whatever order the methods
are called, if and only if the implementations are unambiguous. -/
theorem picksImplementation_iff_unambiguous (classes : Classes κ ε)
    (interfaces : Interfaces κ) {type : TypeExpr κ}
    (sources : Sources type) :
    PicksImplementation classes interfaces sources ↔ Unambiguous classes interfaces sources :=
  ⟨PicksImplementation.unambiguous, Unambiguous.picksImplementation⟩

end Fetched

def twoStores : Sources (κ := String) (.cls "Store") where
  script := []
  products := [⟨"mongo", .singleton, .cls "Store", ⟨0, .cls "MongoStore"⟩⟩,
    ⟨"sql", .singleton, .cls "Store", ⟨1, .cls "SqlStore"⟩⟩]
  nextBean := 2
  interface := by
    intro step hstep
    cases hstep
  declared := by decide
  concrete := by decide
  fresh := by decide

/-- The one which is made first is returned, although none is primary. -/
theorem not_picksImplementation_twoStores : ¬ PicksImplementation
      (Classes.plain (fun _ => []) fun _ => [] : Classes String Empty)
      storeInterfaces twoStores := by
  intro h
  obtain ⟨candidates, _, hraises⟩ := h.ambiguous _ (.refl _) none
    (.cls "MongoStore") (.cls "SqlStore")
    (.inr ⟨_, mem_cons_self, rfl⟩)
    (.inr ⟨_, mem_cons_of_mem _ mem_cons_self, rfl⟩)
    (by decide) (fun _ _ => rfl)
  have hfound := (hraises .independent 1).symm.trans
    (show _ = some (.ok (some ⟨0, .cls "MongoStore"⟩)) by decide)
  cases hfound

end PyFly.Container
