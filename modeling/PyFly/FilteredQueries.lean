import PyFly.ResolutionSession
import PyFly.Scanning

/-!
# Queries after the removal of classes

The passes of the context take registrations and names away, and leave the
bindings.  Every query has the answer it has in a container in which the
removed classes were never registered or bound exactly when none of them is
bound, or only where it makes no difference, and none shares its name with a
class which stays.
-/

namespace PyFly.Container

open Library List

variable {κ ε : Type}

theorem Registry.ext {registry registry' : Registry κ}
    (hregistrations : registry.registrations = registry'.registrations)
    (hnamed : registry.named = registry'.named)
    (hbindings : registry.bindings = registry'.bindings)
    (hnext : registry.nextId = registry'.nextId) : registry = registry' := by
  cases registry
  cases registry'
  cases hregistrations
  cases hnamed
  cases hbindings
  cases hnext
  rfl

variable [DecidableEq κ]

/-! ## The passes -/

def prune (classes : Classes κ ε) (removed : List (TypeExpr κ))
    (registry : Registry κ) : Registry κ :=
  registry.restricted
    (registry.registrations.restrict fun cls => cls ∉ removed)
    (registry.named.restrict fun name =>
      name ∉ removed.map classes.beanName)
    (fun _ hitem => (Dict.mem_items_restrict.mp hitem).1)
    (fun _ hitem => (Dict.mem_items_restrict.mp hitem).1)

variable {classes : Classes κ ε} {registry : Registry κ}

@[simp] theorem registrations_prune (removed : List (TypeExpr κ)) :
    (prune classes removed registry).registrations =
      registry.registrations.restrict fun cls => cls ∉ removed := rfl

@[simp] theorem named_prune (removed : List (TypeExpr κ)) :
    (prune classes removed registry).named =
      registry.named.restrict fun name =>
        name ∉ removed.map classes.beanName := rfl

theorem mem_keys_prune {removed : List (TypeExpr κ)} {cls : TypeExpr κ} :
    cls ∈ (prune classes removed registry).registrations.keys ↔
      cls ∈ registry.registrations.keys ∧ cls ∉ removed := by
  rw [Dict.mem_keys_iff, Dict.mem_keys_iff, registrations_prune,
    Dict.get?_restrict]
  by_cases hmem : cls ∈ removed
  · simp [hmem]
  · simp [hmem]

theorem prune_nil : prune classes [] registry = registry := by
  refine Registry.ext ?_ ?_ rfl rfl
  · exact Dict.restrict_of_forall fun _ _ => rfl
  · exact Dict.restrict_of_forall fun _ _ => rfl

theorem prune_prune (removed removed' : List (TypeExpr κ)) :
    prune classes removed' (prune classes removed registry) =
      prune classes (removed ++ removed') registry := by
  refine Registry.ext ?_ ?_ rfl rfl
  · rw [registrations_prune, registrations_prune, registrations_prune,
      Dict.restrict_restrict]
    congr 1
    funext cls
    simp [not_or]
  · rw [named_prune, named_prune, named_prune, Dict.restrict_restrict]
    congr 1
    funext name
    simp only [map_append, mem_append, not_or, Bool.decide_and]

theorem prune_congr {removed removed' : List (TypeExpr κ)}
    (h : ∀ cls, cls ∈ removed ↔ cls ∈ removed') :
    prune classes removed registry = prune classes removed' registry := by
  have hnames : ∀ name, name ∈ removed.map classes.beanName ↔
      name ∈ removed'.map classes.beanName := by
    intro name
    simp only [mem_map, h]
  refine Registry.ext ?_ ?_ rfl rfl
  · simp only [registrations_prune, h]
  · simp only [named_prune, hnames]

theorem tidy_prune (h : Tidy classes registry)
    (removed : List (TypeExpr κ)) :
    Tidy classes (prune classes removed registry) where
  own item hitem := h.own item (Dict.mem_items_restrict.mp hitem).1
  named name hname := by
    obtain ⟨item, hitem, rfl⟩ := mem_map.mp hname
    exact h.named item.1
      (mem_map.mpr ⟨item, (Dict.mem_items_restrict.mp hitem).1, rfl⟩)

theorem removeRegistration_eq (h : Tidy classes registry)
    {cls : TypeExpr κ} (hmem : cls ∈ registry.registrations.keys) :
    removeRegistration registry cls = prune classes [cls] registry := by
  obtain ⟨reg, hreg⟩ := Dict.mem_keys_iff.mp hmem
  have hname : reg.name = classes.beanName cls :=
    h.own (cls, reg) (Dict.get?_eq_some_iff.mp hreg)
  unfold removeRegistration
  rw [hreg]
  refine Registry.ext ?_ ?_ rfl rfl
  · rw [registrations_prune]
    refine (Dict.erase_eq_restrict _ cls).trans ?_
    simp only [mem_singleton, ne_eq]
  · rw [named_prune]
    show namedWithout registry reg = _
    unfold namedWithout
    rw [hname]
    split
    · rename_i hempty
      symm
      refine Dict.restrict_of_forall fun name hkey => ?_
      simp [hempty, h.named name hkey]
    · rw [Dict.erase_eq_restrict]
      congr 1
      funext name
      simp

theorem foldl_removeRegistration (h : Tidy classes registry)
    {removed : List (TypeExpr κ)} (hnodup : removed.Nodup)
    (hkeys : ∀ cls ∈ removed, cls ∈ registry.registrations.keys) :
    removed.foldl removeRegistration registry =
      prune classes removed registry := by
  induction removed generalizing registry with
  | nil => exact prune_nil.symm
  | cons cls removed ih =>
    obtain ⟨hcls, hnodup⟩ := nodup_cons.mp hnodup
    have hrest : ∀ other ∈ removed, other ∈
        (prune classes [cls] registry).registrations.keys := by
      intro other hother
      refine mem_keys_prune.mpr
        ⟨hkeys other (mem_cons_of_mem _ hother), ?_⟩
      intro hsame
      rw [mem_singleton.mp hsame] at hother
      exact hcls hother
    rw [foldl_cons,
      removeRegistration_eq h (hkeys cls mem_cons_self),
      ih (tidy_prune h [cls]) hnodup hrest, prune_prune]
    rfl

theorem removeWhere_eq (h : Tidy classes registry)
    (fails : TypeExpr κ → Bool) :
    removeWhere fails registry =
      prune classes (registry.registrations.keys.filter fails) registry :=
  foldl_removeRegistration h (registry.registrations.keys_nodup.filter _)
    fun _ hcls => (mem_filter.mp hcls).1

/-- What the passes leave, when no class is a configuration. -/
def filtered (declarations : Declarations κ) (environment : Environment)
    (registry : Registry κ) : Registry κ :=
  evaluateBeanConditions declarations
    (evaluateConditions declarations
      (filterByProfile declarations environment registry))

def removedClasses (before after : Registry κ) : List (TypeExpr κ) :=
  before.registrations.keys.filter fun cls =>
    cls ∉ after.registrations.keys

theorem prune_removedClasses {removed : List (TypeExpr κ)}
    (hkeys : ∀ cls ∈ removed, cls ∈ registry.registrations.keys) :
    prune classes removed registry =
      prune classes
        (removedClasses registry (prune classes removed registry))
        registry := by
  refine prune_congr fun cls => ?_
  unfold removedClasses
  rw [mem_filter, decide_eq_true_eq, mem_keys_prune]
  constructor
  · intro hmem
    exact ⟨hkeys cls hmem, fun hstays => hstays.2 hmem⟩
  · rintro ⟨hkey, hgone⟩
    by_contra hmem
    exact hgone ⟨hkey, hmem⟩

theorem filtered_eq (declarations : Declarations κ)
    (environment : Environment) (h : Tidy classes registry) :
    filtered declarations environment registry =
      prune classes
        (removedClasses registry
          (filtered declarations environment registry)) registry := by
  obtain ⟨removed, hkeys, heq⟩ : ∃ removed,
      (∀ cls ∈ removed, cls ∈ registry.registrations.keys) ∧
        filtered declarations environment registry =
          prune classes removed registry := by
    unfold filtered filterByProfile evaluateConditions evaluateBeanConditions
    rw [removeWhere_eq h, removeWhere_eq (tidy_prune h _), prune_prune,
      removeWhere_eq (tidy_prune h _), prune_prune]
    refine ⟨_, ?_, rfl⟩
    intro cls hcls
    obtain hcls | hcls := mem_append.mp hcls
    · obtain hcls | hcls := mem_append.mp hcls
      · exact (mem_filter.mp hcls).1
      · exact (mem_keys_prune.mp (mem_filter.mp hcls).1).1
    · exact (mem_keys_prune.mp (mem_filter.mp hcls).1).1
  rw [heq]
  exact prune_removedClasses hkeys

/-! ## Registries with the same queries -/

structure Interchangeable (classes : Classes κ ε)
    (registry registry' : Registry κ) : Prop where
  registrations : registry'.registrations = registry.registrations
  named : registry'.named = registry.named
  resolve : ∀ slot type,
    resolve classes registry' slot type = resolve classes registry slot type
  resolveAll : ∀ slot type,
    (resolveAll registry' slot type :
      Resolving κ ε (List (TypeExpr κ))) = resolveAll registry slot type

namespace Interchangeable

variable {registry' : Registry κ}

theorem resolveByName (h : Interchangeable classes registry registry')
    (slot : Slot) (name : String) :
    (resolveByName registry' slot name : Resolving κ ε (TypeExpr κ)) =
      Container.resolveByName registry slot name := by
  unfold Container.resolveByName
  rw [h.named]

theorem resolveParam (h : Interchangeable classes registry registry')
    (slot : Slot) (type : TypeExpr κ) :
    resolveParam classes registry' slot type =
      Container.resolveParam classes registry slot type := by
  induction type with
  | cls name =>
    rw [Container.resolveParam, Container.resolveParam, h.resolve]
  | annotated base qualifier ih =>
    cases qualifier with
    | none => exact ih
    | some name =>
      rw [Container.resolveParam, Container.resolveParam,
        h.resolveByName]
  | optional inner ih =>
    rw [Container.resolveParam, Container.resolveParam, h.resolve]
  | listOf item ih =>
    rw [Container.resolveParam, Container.resolveParam, h.resolveAll]
  | classRef arg => rfl

theorem similarTypeNames (h : Interchangeable classes registry registry')
    (name : String) :
    similarTypeNames classes registry' name =
      Container.similarTypeNames classes registry name := by
  unfold Container.similarTypeNames
  rw [h.registrations]

theorem resolveParameter (h : Interchangeable classes registry registry')
    (owner : TypeExpr κ) (parameter : Parameter κ) :
    resolveParameter classes registry' owner parameter =
      Container.resolveParameter classes registry owner parameter := by
  unfold Container.resolveParameter parameterError
  rw [h.resolveParam, h.similarTypeNames]

theorem collectKwargs (h : Interchangeable classes registry registry')
    (owner : TypeExpr κ) (parameters : List (Parameter κ)) :
    collectKwargs classes registry' owner parameters =
      Container.collectKwargs classes registry owner parameters := by
  induction parameters with
  | nil => rfl
  | cons parameter parameters ih =>
    rw [Container.collectKwargs, Container.collectKwargs,
      h.resolveParameter, ih]

theorem injectField (h : Interchangeable classes registry registry')
    (owner : TypeExpr κ) (field : Field κ) :
    injectField classes registry' owner field =
      Container.injectField classes registry owner field := by
  unfold Container.injectField
  simp only [h.resolveByName, h.resolveParam, h.resolve]

theorem creation (h : Interchangeable classes registry registry')
    (owner : TypeExpr κ) :
    creation classes registry' owner =
      Container.creation classes registry owner := by
  have hfields : Container.injectField classes registry' owner =
      Container.injectField classes registry owner :=
    funext (h.injectField owner)
  unfold Container.creation injectAutowiredFields
  simp only [h.collectKwargs, hfields]

theorem configReply (h : Interchangeable classes registry registry')
    (beans : Beans κ) (owner : TypeExpr κ) (field : String) :
    configReply classes registry' beans owner field =
      Container.configReply classes registry beans owner field := by
  unfold Container.configReply
  rw [h.registrations]

theorem answerQuery (h : Interchangeable classes registry registry')
    (resolver : Resolver κ ε) (owner : Option ℕ) :
    answerQuery classes registry' resolver owner =
      Container.answerQuery classes registry resolver owner := by
  funext query beans
  cases query with
  | config cls field =>
    simp only [Container.answerQuery, h.configReply]
  | resolve slot key reg => rfl

theorem resolveRegistration (h : Interchangeable classes registry registry')
    (depth : ℕ) :
    resolveRegistration classes registry' depth =
      Container.resolveRegistration classes registry depth := by
  induction depth with
  | zero => rfl
  | succ depth ih =>
    funext reg beans
    rw [Container.resolveRegistration, Container.resolveRegistration, ih]
    unfold createInstance
    rw [h.creation, h.answerQuery]

theorem call {α : Type} (h : Interchangeable classes registry registry')
    (depth : ℕ) (program : Resolving κ ε α) (beans : Beans κ) :
    call classes registry' depth program beans =
      Container.call classes registry depth program beans := by
  unfold Container.call
  rw [h.answerQuery, h.resolveRegistration]

theorem program (h : Interchangeable classes registry registry')
    (request : Call κ) :
    request.program classes registry' = request.program classes registry := by
  cases request with
  | resolve type => simp only [Call.program, h.resolve]
  | resolveByName name => simp only [Call.program, h.resolveByName]
  | resolveAll type => exact h.resolveAll .outermost type

end Interchangeable

/-! ## Removed classes which are still bound -/

structure Harmless (classes : Classes κ ε) (removed : List (TypeExpr κ))
    (registry : Registry κ) (type : TypeExpr κ) : Prop where
  blocked : ∃ before missing after,
    registry.impls type = before ++ missing :: after ∧
      (∀ cls ∈ before, cls ∉ removed) ∧ missing ∉ removed ∧
        missing ∉ registry.registrations.keys
  preferred : (type ∈ registry.registrations.keys ∧ type ∉ removed) ∨
    ∃ impl, (registry.impls type).find? classes.isPrimary = some impl ∧
      impl ∉ removed

/-- No removed class shares its name with a class which stays, or is bound,
except where it makes no difference. -/
structure KeptApart (classes : Classes κ ε) (removed : List (TypeExpr κ))
    (registry : Registry κ) : Prop where
  names : Unshared classes removed registry
  bindings : ∀ type, (∀ cls ∈ registry.impls type, cls ∉ removed) ∨
    Harmless classes removed registry type

section Agreement

variable {removed : List (TypeExpr κ)} {pruned reference : Registry κ}

theorem get?_eq_none_of_missing {cls : TypeExpr κ}
    (hkeys : cls ∉ registry.registrations.keys)
    (hpruned : pruned.registrations =
      registry.registrations.restrict fun cls => cls ∉ removed) :
    pruned.registrations.get? cls = none := by
  rw [hpruned, Dict.get?_restrict, Dict.get?_eq_none_iff.mpr hkeys, ite_self]

theorem resolveImpls_of_missing (slot : Slot) {cls : TypeExpr κ}
    (hcls : pruned.registrations.get? cls = none)
    (before after : List (TypeExpr κ)) :
    (resolveImpls pruned slot (before ++ cls :: after) :
        Resolving κ ε (List (TypeExpr κ))) =
      resolveImpls pruned slot (before ++ [cls]) := by
  induction before with
  | nil =>
    have hthrow : (resolveImpl pruned slot (.type cls) cls :
        Resolving κ ε (TypeExpr κ)) = Async.throw (.keyError cls) := by
      unfold resolveImpl
      rw [hcls]
    show (do
      let bean ← resolveImpl pruned slot (.type cls) cls
      let beans ← resolveImpls pruned slot after
      return bean :: beans) = _
    rw [hthrow]
    show _ = (do
      let bean ← resolveImpl pruned slot (.type cls) cls
      let beans ← resolveImpls pruned slot []
      return bean :: beans)
    rw [hthrow]
    rfl
  | cons head before ih =>
    rw [cons_append, cons_append, resolveImpls, resolveImpls, ih]

variable {registrations : Dict (TypeExpr κ) (Registration κ)}

theorem resolveImpl_congr (hpruned : pruned.registrations = registrations)
    (hreference : reference.registrations = registrations) (slot : Slot)
    (key : Key κ) (impl : TypeExpr κ) :
    (resolveImpl reference slot key impl : Resolving κ ε (TypeExpr κ)) =
      resolveImpl pruned slot key impl := by
  unfold resolveImpl
  rw [hpruned, hreference]

theorem resolveImpls_congr (hpruned : pruned.registrations = registrations)
    (hreference : reference.registrations = registrations) (slot : Slot)
    (impls : List (TypeExpr κ)) :
    (resolveImpls reference slot impls :
        Resolving κ ε (List (TypeExpr κ))) =
      resolveImpls pruned slot impls := by
  induction impls with
  | nil => rfl
  | cons impl impls ih =>
    rw [resolveImpls, resolveImpls,
      resolveImpl_congr hpruned hreference, ih]

theorem find?_filter_of_stays {isPrimary : TypeExpr κ → Bool}
    {impls : List (TypeExpr κ)} {impl : TypeExpr κ}
    (hfind : impls.find? isPrimary = some impl) (hstays : impl ∉ removed) :
    (impls.filter fun cls => cls ∉ removed).find? isPrimary =
      some impl := by
  induction impls with
  | nil => cases hfind
  | cons head impls ih =>
    rw [List.find?_cons] at hfind
    cases hhead : isPrimary head with
    | true =>
      rw [hhead] at hfind
      cases hfind
      rw [filter_cons_of_pos (by simpa using hstays),
        List.find?_cons, hhead]
    | false =>
      rw [hhead] at hfind
      rw [filter_cons]
      split
      · rw [List.find?_cons, hhead]
        exact ih hfind
      · exact ih hfind

theorem resolve_of_primary (slot : Slot) {type impl : TypeExpr κ}
    (hreg : registry.registrations.get? type = none)
    (hfind : (registry.impls type).find? classes.isPrimary = some impl) :
    resolve classes registry slot type =
      resolveImpl registry slot (.type type) impl := by
  unfold resolve
  rw [hreg]
  unfold Registry.impls at hfind
  dsimp only
  split
  · rename_i himpls
    rw [himpls] at hfind
    cases hfind
  · rename_i only himpls
    rw [himpls, List.find?_singleton] at hfind
    split at hfind
    · rw [Option.some.inj hfind]
    · cases hfind
  · simp only [hfind]

theorem resolve_congr (hpruned : pruned.registrations = registrations)
    (hreference : reference.registrations = registrations) (slot : Slot)
    {type : TypeExpr κ} (himpls : reference.impls type = pruned.impls type) :
    resolve classes reference slot type =
      resolve classes pruned slot type := by
  unfold Registry.impls at himpls
  unfold resolve similarTypeNames
  simp only [himpls, resolveImpl_congr hpruned hreference]
  rw [hreference, hpruned]

theorem interchangeable_of_keptApart
    (h : KeptApart classes removed registry)
    (hfollows : Follows removed registry reference)
    (hnamed : reference.named = registry.named.restrict
      fun name => name ∉ removed.map classes.beanName) :
    Interchangeable classes (prune classes removed registry) reference where
  registrations := hfollows.registrations
  named := hnamed
  resolve slot type := by
    obtain hnone | ⟨_, hpreferred⟩ := h.bindings type
    · refine resolve_congr rfl hfollows.registrations slot ?_
      rw [hfollows.impls]
      exact filter_eq_self.mpr fun cls hcls => by
        simpa using hnone cls hcls
    · cases hreg : (prune classes removed registry).registrations.get? type
        with
      | some reg =>
        have hreference : reference.registrations.get? type = some reg := by
          rw [hfollows.registrations]
          exact hreg
        unfold resolve
        rw [hreference, hreg]
      | none =>
        obtain ⟨hkey, hstays⟩ | ⟨impl, hfind, hstays⟩ := hpreferred
        · rw [Dict.get?_eq_none_iff, mem_keys_prune] at hreg
          exact absurd ⟨hkey, hstays⟩ hreg
        · have hreference : reference.registrations.get? type = none := by
            rw [hfollows.registrations]
            exact hreg
          have hfind' : (reference.impls type).find? classes.isPrimary =
              some impl := by
            rw [hfollows.impls]
            exact find?_filter_of_stays hfind hstays
          have hpruned : ((prune classes removed registry).impls
              type).find? classes.isPrimary = some impl := hfind
          rw [resolve_of_primary slot hreference hfind',
            resolve_of_primary slot hreg hpruned]
          exact resolveImpl_congr rfl hfollows.registrations slot _ impl
  resolveAll slot type := by
    show (resolveImpls reference slot (reference.impls type) :
      Resolving κ ε (List (TypeExpr κ))) =
        resolveImpls (prune classes removed registry) slot
          (registry.impls type)
    have hcongr : ∀ impls, (resolveImpls reference slot impls :
        Resolving κ ε (List (TypeExpr κ))) =
          resolveImpls (prune classes removed registry) slot impls :=
      resolveImpls_congr rfl hfollows.registrations slot
    rw [hfollows.impls, hcongr]
    obtain hnone | ⟨⟨before, missing, after, himpls, hbefore, hstays, hkey⟩,
      _⟩ := h.bindings type
    · rw [filter_eq_self.mpr fun cls hcls => by
        simpa using hnone cls hcls]
    · have hmissing : (prune classes removed registry).registrations.get?
          missing = none := get?_eq_none_of_missing hkey rfl
      have hfilter : before.filter (fun cls => cls ∉ removed) = before :=
        filter_eq_self.mpr fun cls hcls => by
          simpa using hbefore cls hcls
      rw [himpls, filter_append, hfilter,
        filter_cons_of_pos (by simpa using hstays),
        resolveImpls_of_missing slot hmissing before,
        resolveImpls_of_missing slot hmissing before after]

end Agreement

/-! ## Answers -/

/-- The code of the classes, as far as a resolution runs it. -/
structure Code (κ ε : Type) where
  parameters : TypeExpr κ → Except ε (List (Parameter κ))
  construct : TypeExpr κ → List (String × Supplied κ) → Except ε Unit
  fields : TypeExpr κ → Option (List (Field κ))
  resolveValue : TypeExpr κ → String → Except ε Unit

def Classes.withCode (classes : Classes κ ε) (code : Code κ ε) :
    Classes κ ε :=
  { classes with
    parameters := code.parameters
    construct := code.construct
    fields := code.fields
    resolveValue := code.resolveValue }

def Code.independent : Code κ ε where
  parameters _ := .ok []
  construct _ _ := .ok ()
  fields _ := some []
  resolveValue _ _ := .ok ()

/-- The outcome of a query. -/
def answer {α : Type} (classes : Classes κ ε) (registry : Registry κ)
    (depth : ℕ) (program : Resolving κ ε α) (beans : Beans κ) :
    Option (Except (Failure κ ε) α) :=
  (call classes registry depth program beans).map Prod.fst

/-- Whatever the code of the classes, and whatever has been resolved, every
query has the same outcome: `resolve`, `resolve_by_name`, `resolve_all`, and
the parameters of all types. -/
def SameAnswers (classes : Classes κ ε) (registry registry' : Registry κ) :
    Prop :=
  ∀ (code : Code κ ε) (beans : Beans κ) (depth : ℕ),
    (∀ request : Call κ,
      answer (classes.withCode code) registry depth
          (request.program (classes.withCode code) registry) beans =
        answer (classes.withCode code) registry' depth
          (request.program (classes.withCode code) registry') beans) ∧
    ∀ type,
      answer (classes.withCode code) registry depth
          (resolveParam (classes.withCode code) registry .outermost type)
          beans =
        answer (classes.withCode code) registry' depth
          (resolveParam (classes.withCode code) registry' .outermost type)
          beans

theorem sameAnswers_of_interchangeable {registry' : Registry κ}
    (h : ∀ code : Code κ ε,
      Interchangeable (classes.withCode code) registry registry') :
    SameAnswers classes registry registry' := by
  intro code beans depth
  constructor
  · intro request
    unfold answer
    rw [(h code).call, (h code).program]
  · intro type
    unfold answer
    rw [(h code).call, (h code).resolveParam]

/-! ## Classes which need nothing -/

def idleBeans : Beans κ := Beans.initial (some Dict.empty)

structure Ready (beans : Beans κ) : Prop where
  resolving : beans.resolving = []
  active : beans.request ≠ none

theorem creation_independent (owner : TypeExpr κ) :
    creation (classes.withCode .independent) registry owner = pure () := rfl

variable {beans : Beans κ}

theorem resolveRegistration_independent (classes : Classes κ ε)
    (registry : Registry κ) (reg : Registration κ) (h : Ready beans) :
    ∃ bean after, Ready after ∧
      resolveRegistration (classes.withCode .independent) registry 1 reg
        beans = some (.ok bean, after) := by
  cases hheld : (held (classes.withCode .independent) beans reg :
    Option (Except (Failure κ ε) (Bean κ))) with
  | some answer =>
    cases answer with
    | ok bean =>
      refine ⟨bean, beans.emit (.returned reg.id bean),
        ⟨h.resolving, h.active⟩, ?_⟩
      rw [resolveRegistration, hheld]
    | error failure =>
      obtain ⟨attributes, hactive⟩ := Option.ne_none_iff_exists'.mp h.active
      unfold held at hheld
      rw [hactive] at hheld
      cases hscope : reg.scope <;> simp [hscope] at hheld
  | none =>
    have hmem : reg.implType ∉ beans.resolving := by
      rw [h.resolving]
      exact not_mem_nil
    rw [resolveRegistration_of_none hheld, createInstance_of_not_mem hmem,
      creation_independent]
    refine ⟨_, _, ?_, rfl⟩
    constructor
    · simp [h.resolving]
    · show (keep _ reg _ _).request ≠ none
      unfold keep
      cases reg.scope with
      | request => simpa using h.active
      | _ => exact h.active

theorem perform_resolveImpl (classes : Classes κ ε) (slot : Slot) (key : Key κ)
    (impl : TypeExpr κ) (h : Ready beans) :
    (registry.registrations.get? impl ≠ none ∧ ∃ type after, Ready after ∧
      call (classes.withCode .independent) registry 1
        (resolveImpl registry slot key impl) beans =
          some (.ok type, after)) ∨
    (registry.registrations.get? impl = none ∧
      call (classes.withCode .independent) registry 1
        (resolveImpl registry slot key impl) beans =
          some (.error (.keyError impl), beans)) := by
  unfold resolveImpl
  cases hreg : registry.registrations.get? impl with
  | none => exact .inr ⟨rfl, rfl⟩
  | some reg =>
    obtain ⟨bean, after, hafter, hresolved⟩ :=
      resolveRegistration_independent classes registry reg h
    refine .inl ⟨Option.some_ne_none reg, bean.type,
      after.emit (.injected none slot key reg.id bean),
      ⟨hafter.resolving, hafter.active⟩, ?_⟩
    exact Coroutine.perform_await_eq_some.mpr ⟨_, _,
      answerQuery_resolve_of_some hresolved none slot key, rfl⟩

theorem call_resolveImpls (classes : Classes κ ε) (registry : Registry κ)
    (slot : Slot) (impls : List (TypeExpr κ)) (h : Ready beans) :
    ((∀ cls ∈ impls, registry.registrations.get? cls ≠ none) ∧
      ∃ types after, call (classes.withCode .independent) registry 1
        (resolveImpls registry slot impls) beans = some (.ok types, after)) ∨
    ∃ before missing rest final, impls = before ++ missing :: rest ∧
      (∀ cls ∈ before, registry.registrations.get? cls ≠ none) ∧
      registry.registrations.get? missing = none ∧
      call (classes.withCode .independent) registry 1
        (resolveImpls registry slot impls) beans =
          some (.error (.keyError missing), final) := by
  induction impls generalizing beans with
  | nil =>
    refine .inl ⟨?_, [], beans, rfl⟩
    intro cls hcls
    cases hcls
  | cons impl impls ih =>
    obtain ⟨hreg, type, middle, hmiddle, hhead⟩ | ⟨hreg, hhead⟩ :=
      perform_resolveImpl classes slot (.type impl) impl h
    · have hbind : call (classes.withCode .independent) registry 1
          (resolveImpls registry slot (impl :: impls)) beans = _ :=
        Coroutine.perform_bind hhead
      obtain ⟨hall, types, after, htail⟩ |
        ⟨before, missing, rest, final, himpls, hbefore, hmissing, htail⟩ :=
          ih hmiddle
      · refine .inl ⟨forall_mem_cons.mpr ⟨hreg, hall⟩, type :: types,
          after, ?_⟩
        exact hbind.trans (Coroutine.perform_bind htail)
      · refine .inr ⟨impl :: before, missing, rest, final, ?_, ?_, hmissing,
          ?_⟩
        · rw [himpls]
          rfl
        · intro cls hcls
          obtain rfl | hold := mem_cons.mp hcls
          · exact hreg
          · exact hbefore cls hold
        · exact hbind.trans (Coroutine.perform_bind htail)
    · refine .inr ⟨[], impl, impls, beans, rfl, ?_, hreg, ?_⟩
      · intro cls hcls
        cases hcls
      · exact Coroutine.perform_bind hhead

/-- The implementation `resolve` takes for an interface. -/
def Taken (isPrimary : TypeExpr κ → Bool) (impls : List (TypeExpr κ))
    (impl : TypeExpr κ) : Prop :=
  impls = [impl] ∨ impls.find? isPrimary = some impl

/-- The ways `resolve` goes for an interface. -/
theorem resolve_interface (slot : Slot) {type : TypeExpr κ}
    (hreg : registry.registrations.get? type = none) :
    (registry.impls type = [] ∧ ∃ error,
        resolve classes registry slot type =
          Async.throw (.noSuchBean error)) ∨
      (∃ impl, Taken classes.isPrimary (registry.impls type) impl ∧
        resolve classes registry slot type =
          resolveImpl registry slot (.type type) impl) ∨
      ((registry.impls type).find? classes.isPrimary = none ∧
        resolve classes registry slot type =
          Async.throw (.noUniqueBean type (registry.impls type))) := by
  unfold resolve
  rw [hreg]
  unfold Registry.impls
  generalize (registry.bindings.get? type).getD [] = impls
  cases impls with
  | nil => exact .inl ⟨rfl, _, rfl⟩
  | cons impl rest =>
    cases rest with
    | nil => exact .inr (.inl ⟨impl, .inl rfl, rfl⟩)
    | cons other rest =>
      dsimp only
      cases hfind : (impl :: other :: rest).find? classes.isPrimary with
      | some primary => exact .inr (.inl ⟨primary, .inr hfind, rfl⟩)
      | none => exact .inr (.inr ⟨rfl, rfl⟩)

inductive InterfaceOutcome (isPrimary : TypeExpr κ → Bool)
    (registry : Registry κ) (type : TypeExpr κ) :
    Except (Failure κ ε) (TypeExpr κ) → Prop
  | unbound (himpls : registry.impls type = []) (error : NoSuchBean κ) :
      InterfaceOutcome isPrimary registry type (.error (.noSuchBean error))
  | found {impl : TypeExpr κ}
      (htaken : Taken isPrimary (registry.impls type) impl)
      (hreg : registry.registrations.get? impl ≠ none)
      (bean : TypeExpr κ) :
      InterfaceOutcome isPrimary registry type (.ok bean)
  | missing {impl : TypeExpr κ}
      (htaken : Taken isPrimary (registry.impls type) impl)
      (hreg : registry.registrations.get? impl = none) :
      InterfaceOutcome isPrimary registry type (.error (.keyError impl))
  | ambiguous (hfind : (registry.impls type).find? isPrimary = none) :
      InterfaceOutcome isPrimary registry type
        (.error (.noUniqueBean type (registry.impls type)))

theorem call_resolve_interface (classes : Classes κ ε) (registry : Registry κ)
    (slot : Slot) {type : TypeExpr κ}
    (hreg : registry.registrations.get? type = none) (h : Ready beans) :
    ∃ result final,
      call (classes.withCode .independent) registry 1
        (resolve (classes.withCode .independent) registry slot type) beans =
          some (result, final) ∧
      InterfaceOutcome classes.isPrimary registry type result := by
  obtain ⟨himpls, error, hresolve⟩ | ⟨impl, htaken, hresolve⟩ |
    ⟨hfind, hresolve⟩ :=
      @resolve_interface _ _ _ (classes.withCode .independent) _ slot _ hreg
  · rw [hresolve]
    exact ⟨_, beans, rfl, .unbound himpls error⟩
  · rw [hresolve]
    obtain ⟨hfound, bean, after, _, hcall⟩ | ⟨hmissing, hcall⟩ :=
      perform_resolveImpl classes slot (.type type) impl h
    · exact ⟨_, _, hcall, .found htaken hfound bean⟩
    · exact ⟨_, _, hcall, .missing htaken hmissing⟩
  · rw [hresolve]
    exact ⟨_, beans, rfl, .ambiguous hfind⟩

omit [DecidableEq κ] in
theorem Taken.mem {isPrimary : TypeExpr κ → Bool}
    {impls : List (TypeExpr κ)} {impl : TypeExpr κ}
    (h : Taken isPrimary impls impl) : impl ∈ impls := by
  obtain rfl | hfind := h
  · exact mem_singleton_self impl
  · exact mem_of_find?_eq_some hfind

section Necessity

variable {removed : List (TypeExpr κ)} {reference : Registry κ}

omit [DecidableEq κ] in
theorem ready_idleBeans : Ready (idleBeans : Beans κ) :=
  ⟨rfl, Option.some_ne_none _⟩

theorem answer_of_call {α : Type} {depth : ℕ}
    {program : Resolving κ ε α} {beans final : Beans κ}
    {result : Except (Failure κ ε) α}
    (h : call classes registry depth program beans = some (result, final)) :
    answer classes registry depth program beans = some result := by
  unfold answer
  rw [h]
  rfl

theorem answer_single {depth : ℕ} {program : Resolving κ ε (TypeExpr κ)}
    {beans final : Beans κ} {result : Except (Failure κ ε) (TypeExpr κ)}
    (h : call classes registry depth program beans = some (result, final)) :
    answer classes registry depth (do return [← program]) beans =
      some (result.map fun type => [type]) := by
  cases result with
  | ok type => exact answer_of_call (Coroutine.perform_bind h)
  | error failure => exact answer_of_call (Coroutine.perform_bind h)

omit [DecidableEq κ] in
theorem map_single_inj {result result' : Except (Failure κ ε) (TypeExpr κ)}
    (h : result.map (fun type => [type]) =
      result'.map fun type => [type]) : result = result' := by
  cases result with
  | ok type =>
    cases result' with
    | ok other =>
      cases h
      rfl
    | error failure => cases h
  | error failure =>
    cases result' with
    | ok other => cases h
    | error other =>
      cases h
      rfl

/-- A class which stays is found under its name only if no removed class has
it. -/
theorem unshared_of_sameAnswers
    (hsame : SameAnswers classes (prune classes removed registry) reference)
    (hfollows : Follows removed registry reference)
    (hfiled : Filed classes reference) :
    Unshared classes removed registry := by
  intro cls hcls hstays hbean hshared
  have hgone : (prune classes removed registry).named.get?
      (classes.beanName cls) = none := by
    rw [named_prune, Dict.get?_restrict]
    simp [hshared]
  have hkey : cls ∈ reference.registrations.keys := by
    rw [hfollows.registrations]
    have hpruned : cls ∈ (prune classes removed registry).registrations.keys :=
      mem_keys_prune.mpr ⟨hcls, hstays⟩
    exact hpruned
  obtain ⟨reg, hreg⟩ := Dict.mem_keys_iff.mp (hfiled.found cls hkey hbean)
  obtain ⟨bean, after, _, hresolved⟩ :=
    resolveRegistration_independent classes reference reg ready_idleBeans
  have hfound : call (classes.withCode .independent) reference 1
      (resolveByName reference .outermost (classes.beanName cls)) idleBeans =
        some (.ok bean.type, after.emit (.injected none .outermost
          (.name (classes.beanName cls)) reg.id bean)) := by
    unfold resolveByName
    rw [hreg]
    exact Coroutine.perform_await_eq_some.mpr ⟨_, _,
      answerQuery_resolve_of_some hresolved none .outermost _, rfl⟩
  have hlost : ∃ error, call (classes.withCode .independent)
      (prune classes removed registry) 1
      (resolveByName (prune classes removed registry) .outermost
        (classes.beanName cls)) idleBeans =
          some (.error (.noSuchBean error), idleBeans) := by
    unfold resolveByName
    rw [hgone]
    exact ⟨_, rfl⟩
  obtain ⟨error, hlost⟩ := hlost
  have hanswers := (hsame .independent idleBeans 1).1
    (.resolveByName (classes.beanName cls))
  have hboth := (answer_single hlost).symm.trans
    (hanswers.trans (answer_single hfound))
  cases hboth

variable {type : TypeExpr κ}

theorem InterfaceOutcome.candidates {isPrimary : TypeExpr κ → Bool}
    {impls : List (TypeExpr κ)} (h : InterfaceOutcome isPrimary registry type
      (.error (.noUniqueBean type impls) :
        Except (Failure κ ε) (TypeExpr κ))) :
    impls = registry.impls type := by
  generalize hresult : (.error (.noUniqueBean type impls) :
    Except (Failure κ ε) (TypeExpr κ)) = result at h
  cases h with
  | ambiguous hfind =>
    cases hresult
    rfl
  | unbound _ _ => cases hresult
  | found _ _ _ => cases hresult
  | missing _ _ => cases hresult

theorem InterfaceOutcome.missed {isPrimary : TypeExpr κ → Bool}
    {impl : TypeExpr κ}
    (h : InterfaceOutcome isPrimary registry type
      (.error (.keyError impl) : Except (Failure κ ε) (TypeExpr κ))) :
    impl ∈ registry.impls type := by
  cases h with
  | missing htaken hreg => exact htaken.mem

variable {cls : TypeExpr κ}

theorem get?_prune_of_mem (h : cls ∈ removed) :
    (prune classes removed registry).registrations.get? cls = none := by
  rw [registrations_prune, Dict.get?_restrict, if_neg (by simpa using h)]

theorem blocked_of_sameAnswers
    (hsame : SameAnswers classes (prune classes removed registry) reference)
    (hfollows : Follows removed registry reference)
    (hbound : cls ∈ registry.impls type) (hcls : cls ∈ removed) :
    ∃ before missing after,
      registry.impls type = before ++ missing :: after ∧
        (∀ cls ∈ before, cls ∉ removed) ∧ missing ∉ removed ∧
          missing ∉ registry.registrations.keys := by
  have hanswers := (hsame .independent idleBeans 1).1 (.resolveAll type)
  obtain ⟨hall, _⟩ | ⟨before, missing, after, final, himpls, hbefore,
    hmissing, hcall⟩ :=
      call_resolveImpls classes (prune classes removed registry) .outermost
        (registry.impls type) ready_idleBeans
  · exact absurd (get?_prune_of_mem hcls) (hall cls hbound)
  obtain ⟨_, types, final', hcall'⟩ | ⟨before', missing', after', final',
    himpls', _, _, hcall'⟩ :=
      call_resolveImpls classes reference .outermost (reference.impls type)
        ready_idleBeans
  · have hboth := (answer_of_call hcall).symm.trans
      (hanswers.trans (answer_of_call hcall'))
    cases hboth
  have hboth := (answer_of_call hcall).symm.trans
    (hanswers.trans (answer_of_call hcall'))
  cases hboth
  have hstays : missing ∉ removed := by
    have hmem : missing ∈ reference.impls type := by
      rw [himpls']
      exact mem_append_right _ mem_cons_self
    rw [hfollows.impls, mem_filter] at hmem
    simpa using hmem.2
  refine ⟨before, missing, after, himpls, ?_, hstays, ?_⟩
  · intro other hother hgone
    exact hbefore other hother (get?_prune_of_mem hgone)
  · rw [Dict.get?_eq_none_iff, mem_keys_prune] at hmissing
    intro hkey
    exact hmissing ⟨hkey, hstays⟩

theorem preferred_of_sameAnswers
    (hsame : SameAnswers classes (prune classes removed registry) reference)
    (hfollows : Follows removed registry reference)
    (hbound : cls ∈ registry.impls type) (hcls : cls ∈ removed) :
    (type ∈ registry.registrations.keys ∧ type ∉ removed) ∨
      ∃ impl, (registry.impls type).find? classes.isPrimary = some impl ∧
        impl ∉ removed := by
  by_cases hdirect : type ∈ registry.registrations.keys ∧ type ∉ removed
  · exact .inl hdirect
  right
  have hfilter : ∀ impl ∈ reference.impls type,
      impl ∈ registry.impls type ∧ impl ∉ removed := by
    intro impl himpl
    rw [hfollows.impls, mem_filter] at himpl
    exact ⟨himpl.1, by simpa using himpl.2⟩
  have hreg : (prune classes removed registry).registrations.get? type =
      none := by
    rw [Dict.get?_eq_none_iff, mem_keys_prune]
    exact hdirect
  have hreg' : reference.registrations.get? type = none := by
    rw [hfollows.registrations]
    exact hreg
  obtain ⟨result, final, hcall, houtcome⟩ :=
    call_resolve_interface classes (prune classes removed registry) .outermost
      hreg ready_idleBeans
  obtain ⟨result', final', hcall', houtcome'⟩ :=
    call_resolve_interface classes reference .outermost hreg' ready_idleBeans
  have hanswers := (hsame .independent idleBeans 1).1 (.resolve type)
  obtain rfl : result = result' := map_single_inj (Option.some.inj
    ((answer_single hcall).symm.trans
      (hanswers.trans (answer_single hcall'))))
  cases houtcome with
  | unbound himpls _ =>
    have hempty : registry.impls type = [] := himpls
    rw [hempty] at hbound
    cases hbound
  | found htaken hfound _ =>
    rename_i impl _
    have hstays : impl ∉ removed := fun hgone =>
      hfound (get?_prune_of_mem hgone)
    obtain honly | hfind := htaken
    · have hall : registry.impls type = [impl] := honly
      rw [hall, mem_singleton] at hbound
      exact absurd (hbound ▸ hcls) hstays
    · exact ⟨impl, hfind, hstays⟩
  | missing htaken _ =>
    rename_i impl _
    have hstays : impl ∉ removed := (hfilter impl houtcome'.missed).2
    obtain honly | hfind := htaken
    · have hall : registry.impls type = [impl] := honly
      rw [hall, mem_singleton] at hbound
      exact absurd (hbound ▸ hcls) hstays
    · exact ⟨impl, hfind, hstays⟩
  | ambiguous _ =>
    have hsameImpls : registry.impls type = reference.impls type :=
      houtcome'.candidates
    rw [hsameImpls] at hbound
    exact absurd hcls (hfilter cls hbound).2

theorem keptApart_of_sameAnswers
    (hsame : SameAnswers classes (prune classes removed registry) reference)
    (hfollows : Follows removed registry reference)
    (hfiled : Filed classes reference) :
    KeptApart classes removed registry where
  names := unshared_of_sameAnswers hsame hfollows hfiled
  bindings type := by
    by_cases hnone : ∀ cls ∈ registry.impls type, cls ∉ removed
    · exact .inl hnone
    · push Not at hnone
      obtain ⟨cls, hbound, hcls⟩ := hnone
      exact .inr ⟨blocked_of_sameAnswers hsame hfollows hbound hcls,
        preferred_of_sameAnswers hsame hfollows hbound hcls⟩

end Necessity

/-! ## The passes of the context -/

theorem KeptApart.withCode {removed : List (TypeExpr κ)}
    (h : KeptApart classes removed registry) (code : Code κ ε) :
    KeptApart (classes.withCode code) removed registry where
  names := h.names
  bindings type := (h.bindings type).imp_right fun harmless =>
    ⟨harmless.blocked, harmless.preferred⟩

/-- After the passes every query has the answer it has in a container in which
the removed classes were never registered or bound if and only if they were
kept apart. -/
theorem filtered_sameAnswers_iff (classes : Classes κ ε)
    (interfaces : Interfaces κ) (declarations : Declarations κ)
    (environment : Environment) (script : List (Introduction κ)) :
    let registry := introduceAll classes interfaces script
    let removed := removedClasses registry
      (filtered declarations environment registry)
    SameAnswers classes (filtered declarations environment registry)
        (introduceAllWithout classes interfaces removed script) ↔
      KeptApart classes removed registry := by
  intro registry removed
  have hfollows : Follows removed registry
      (introduceAllWithout classes interfaces removed script) :=
    follows_introduceAll classes interfaces removed script
  have htidy : Tidy classes registry := (filed_introduceAll script).toTidy
  rw [filtered_eq declarations environment htidy]
  constructor
  · intro hsame
    exact keptApart_of_sameAnswers hsame hfollows
      (filed_introduceAllWithout removed script)
  · intro h
    refine sameAnswers_of_interchangeable fun code => ?_
    exact interchangeable_of_keptApart (h.withCode code) hfollows
      (named_introduceAllWithout h.names)

/-- Two stores are found by the scanner, one of them for production only. -/
def storeInterfaces : Interfaces String where
  bases cls :=
    if cls = .cls "SqlStore" ∨ cls = .cls "MongoStore" then
      [.cls "Store", .cls "object"]
    else [.cls "object"]
  object := .cls "object"
  abc := .cls "ABC"
  protocol := .cls "Protocol"
  protocolFlag cls := cls = .cls "Store"
  isAbstract _ := false
  moduleName _ := []

def storeDeclarations : Declarations String where
  profile cls := if cls = .cls "MongoStore" then ['p', 'r', 'o', 'd'] else []
  condition _ := none
  conditions _ := []
  property _ := none
  lower text := text
  importable _ := false
  issubclass _ _ := some false

def storeScript : List (Introduction String) :=
  [.scanned (.cls "SqlStore"), .scanned (.cls "MongoStore")]

/-- Outside of production the other store is not found. -/
theorem not_filtered_sameAnswers_stores :
    let classes : Classes String Empty :=
      Classes.plain (fun _ => []) fun _ => []
    let environment : Environment := ⟨[['d', 'e', 'v']], (· = ' ')⟩
    let registry := introduceAll classes storeInterfaces storeScript
    let removed := removedClasses registry
      (filtered storeDeclarations environment registry)
    ¬ SameAnswers classes (filtered storeDeclarations environment registry)
      (introduceAllWithout classes storeInterfaces removed storeScript) := by
  intro classes environment registry removed h
  have hanswers := (h .independent idleBeans 1).1 (.resolve (.cls "Store"))
  revert hanswers
  decide

end PyFly.Container
