import Mathlib.Data.List.Perm.Subperm
import PyFly.ResolutionSession
import PyFly.Scanning

/-!
# Configurations

The methods of a configuration which make beans are called one after the other,
those which others depend on first.  A bean is registered under its own class,
bound to the return type of its method, and registered under that type as well
unless something is.
-/

namespace PyFly.Container

open Library List

variable {κ ε : Type}

/-! ## The methods -/

structure BeanMethod (κ : Type) where
  attrName : String
  /-- `__name__` -/
  functionName : String
  /-- `__pyfly_bean_name__`, or an empty text. -/
  beanName : String := ""
  /-- `__pyfly_bean_scope__` -/
  scope : Scope := .singleton
  returnType : Option (TypeExpr κ)
  /-- The other type hints, in order. -/
  parameters : List (Parameter κ)
  /-- `__pyfly_conditions__` -/
  conditions : List (Condition κ)

structure Factories (κ ε : Type) where
  /-- `__pyfly_stereotype__` is `"configuration"`. -/
  isConfiguration : TypeExpr κ → Bool
  /-- `__pyfly_auto_configuration__` -/
  isAuto : TypeExpr κ → Bool
  /-- The `@bean` methods, in the order of `dir`. -/
  methods : TypeExpr κ → List (BeanMethod κ)
  /-- The class of the object a method returns. -/
  make : TypeExpr κ → String → List (String × Supplied κ) → Except ε (TypeExpr κ)

def discard (node : String) (deps : List (String × List String)) :
    List (String × List String) :=
  deps.map fun entry => (entry.1, entry.2.filter (· ≠ node))

def released (node : String) (deps : List (String × List String)) : List String :=
  (deps.filter fun entry =>
    node ∈ entry.2 ∧ entry.2.filter (· ≠ node) = []).map Prod.fst

/-- The loop of `_sort_bean_methods` over its queue, and over what each method
still waits for. -/
def takeReady : ℕ → List String → List (String × List String) → List String
  | 0, _, _ => []
  | _ + 1, [], _ => []
  | fuel + 1, node :: queue, deps =>
    node :: takeReady fuel (queue ++ released node deps) (discard node deps)

section Sorting

variable [DecidableEq κ]

def producers (methods : List (BeanMethod κ)) : Dict (TypeExpr κ) String :=
  Dict.ofList (methods.filterMap fun method =>
    method.returnType.map fun type => (type, method.attrName))

def methodDeps (methods : List (BeanMethod κ)) (method : BeanMethod κ) : List String :=
  (method.parameters.filterMap fun parameter =>
    (producers methods).get? parameter.type).filter (· ≠ method.attrName)

def allDeps (methods : List (BeanMethod κ)) : List (String × List String) :=
  methods.map fun method => (method.attrName, methodDeps methods method)

def orderedNames (methods : List (BeanMethod κ)) : List String :=
  takeReady methods.length (((allDeps methods).filter fun entry => entry.2 = []).map Prod.fst)
    (allDeps methods)

def sortBeanMethods (methods : List (BeanMethod κ)) : List (BeanMethod κ) :=
  if (orderedNames methods).length ≠ methods.length then methods
  else (orderedNames methods).filterMap fun name =>
    methods.find? fun method => method.attrName = name

end Sorting

/-! ## Sorting loses no method -/

structure Queued (queue : List String) (deps : List (String × List String)) :
    Prop where
  names : (deps.map Prod.fst).Nodup
  nodup : queue.Nodup
  mem : ∀ name ∈ queue, name ∈ deps.map Prod.fst
  ready : ∀ entry ∈ deps, entry.1 ∈ queue → entry.2 = []

def waiting (deps : List (String × List String)) : List String :=
  (deps.filter fun entry => entry.2 ≠ []).map Prod.fst

theorem map_fst_discard (node : String) (deps : List (String × List String)) :
    (discard node deps).map Prod.fst = deps.map Prod.fst := by
  unfold discard
  rw [map_map]
  rfl

variable {name : String}

theorem mem_released {node : String} {deps : List (String × List String)} :
    name ∈ released node deps ↔ ∃ entry ∈ deps, entry.1 = name ∧
      node ∈ entry.2 ∧ entry.2.filter (· ≠ node) = [] := by
  unfold released
  simp only [mem_map, mem_filter, decide_eq_true_eq]
  constructor
  · rintro ⟨entry, ⟨hentry, hready⟩, hname⟩
    exact ⟨entry, hentry, hname, hready⟩
  · rintro ⟨entry, hentry, hname, hready⟩
    exact ⟨entry, ⟨hentry, hready⟩, hname⟩

theorem mem_waiting {deps : List (String × List String)} :
    name ∈ waiting deps ↔ ∃ entry ∈ deps, entry.1 = name ∧ entry.2 ≠ [] := by
  unfold waiting
  simp only [mem_map, mem_filter, decide_eq_true_eq]
  constructor
  · rintro ⟨entry, ⟨hentry, hwaits⟩, hname⟩
    exact ⟨entry, hentry, hname, hwaits⟩
  · rintro ⟨entry, hentry, hname, hwaits⟩
    exact ⟨entry, ⟨hentry, hwaits⟩, hname⟩

theorem mem_waiting_of_released {node : String}
    {deps : List (String × List String)} (h : name ∈ released node deps) :
    name ∈ waiting deps := by
  obtain ⟨entry, hentry, hname, hnode, _⟩ := mem_released.mp h
  exact mem_waiting.mpr ⟨entry, hentry, hname, ne_nil_of_mem hnode⟩

theorem mem_waiting_of_discard {node : String} {deps : List (String × List String)}
    (h : name ∈ waiting (discard node deps)) : name ∈ waiting deps := by
  obtain ⟨entry, hentry, hname, hwaits⟩ := mem_waiting.mp h
  obtain ⟨old, hold, rfl⟩ := mem_map.mp hentry
  refine mem_waiting.mpr ⟨old, hold, hname, ?_⟩
  rintro hnone
  simp [hnone] at hwaits

namespace Queued

variable {node : String} {queue : List String}
variable {deps : List (String × List String)}

theorem not_mem_waiting (h : Queued queue deps) {name : String}
    (hname : name ∈ queue) : name ∉ waiting deps := by
  intro hwaits
  obtain ⟨entry, hentry, rfl, hleft⟩ := mem_waiting.mp hwaits
  exact hleft (h.ready entry hentry hname)

theorem next (h : Queued (node :: queue) deps) :
    Queued (queue ++ released node deps) (discard node deps) where
  names := by
    rw [map_fst_discard]
    exact h.names
  nodup := by
    refine List.Nodup.append (nodup_cons.mp h.nodup).2
      (h.names.sublist ((filter_sublist).map Prod.fst)) ?_
    intro name hqueue hnew
    exact h.not_mem_waiting (mem_cons_of_mem _ hqueue) (mem_waiting_of_released hnew)
  mem := by
    intro name hname
    rw [map_fst_discard]
    obtain hqueue | hnew := mem_append.mp hname
    · exact h.mem name (mem_cons_of_mem _ hqueue)
    · exact ((filter_sublist).map Prod.fst).subset hnew
  ready := by
    intro entry hentry hname
    obtain ⟨old, hold, rfl⟩ := mem_map.mp hentry
    obtain hqueue | hnew := mem_append.mp hname
    · have hnone := h.ready old hold (mem_cons_of_mem _ hqueue)
      simp [hnone]
    · obtain ⟨other, hother, hsame, _, hready⟩ := mem_released.mp hnew
      have heq : other = old :=
        inj_on_of_nodup_map h.names hother hold hsame
      rw [heq] at hready
      exact hready

theorem takeReady (fuel : ℕ) (h : Queued queue deps) :
    (Container.takeReady fuel queue deps).Nodup ∧ ∀ name ∈ Container.takeReady fuel queue deps,
        name ∈ queue ∨ name ∈ waiting deps := by
  induction fuel generalizing queue deps with
  | zero =>
    refine ⟨nodup_nil, ?_⟩
    intro name hname
    cases hname
  | succ fuel ih =>
    cases queue with
    | nil =>
      refine ⟨nodup_nil, ?_⟩
      intro name hname
      cases hname
    | cons node queue =>
      obtain ⟨hnodup, hmem⟩ := ih h.next
      have hwas : ∀ name ∈ Container.takeReady fuel
          (queue ++ released node deps) (discard node deps),
          name ∈ queue ∨ name ∈ waiting deps := by
        intro name hname
        obtain hleft | hwaits := hmem name hname
        · exact (mem_append.mp hleft).imp_right mem_waiting_of_released
        · exact .inr (mem_waiting_of_discard hwaits)
      refine ⟨nodup_cons.mpr ⟨?_, hnodup⟩, ?_⟩
      · intro hagain
        obtain hqueue | hwaits := hwas node hagain
        · exact (nodup_cons.mp h.nodup).1 hqueue
        · exact h.not_mem_waiting mem_cons_self hwaits
      · intro name hname
        obtain rfl | hrest := mem_cons.mp hname
        · exact .inl mem_cons_self
        · exact (hwas name hrest).imp_left (mem_cons_of_mem _)

end Queued

section SortingPerm

variable [DecidableEq κ] {methods : List (BeanMethod κ)}

theorem map_fst_allDeps (methods : List (BeanMethod κ)) :
    (allDeps methods).map Prod.fst = methods.map BeanMethod.attrName := by
  unfold allDeps
  rw [map_map]
  rfl

theorem queued_allDeps (h : (methods.map BeanMethod.attrName).Nodup) : Queued
      (((allDeps methods).filter fun entry => entry.2 = []).map Prod.fst)
      (allDeps methods) := by
  rw [← map_fst_allDeps] at h
  refine ⟨h, h.sublist ((filter_sublist).map Prod.fst),
    fun name hname => ((filter_sublist).map Prod.fst).subset hname, ?_⟩
  intro entry hentry hname
  obtain ⟨other, hother, hsame⟩ := mem_map.mp hname
  obtain ⟨hmem, hready⟩ := mem_filter.mp hother
  have heq : other = entry := inj_on_of_nodup_map h hmem hentry hsame
  rw [heq] at hready
  exact of_decide_eq_true hready

theorem orderedNames_perm (h : (methods.map BeanMethod.attrName).Nodup)
    (hlength : (orderedNames methods).length = methods.length) :
    (orderedNames methods).Perm (methods.map BeanMethod.attrName) := by
  have hqueued := queued_allDeps h
  obtain ⟨hnodup, hmem⟩ := hqueued.takeReady methods.length
  have hsub : ∀ name ∈ orderedNames methods, name ∈ methods.map BeanMethod.attrName := by
    intro name hname
    rw [← map_fst_allDeps]
    obtain hqueue | hwaits := hmem name hname
    · exact hqueued.mem name hqueue
    · exact ((filter_sublist).map Prod.fst).subset hwaits
  have hsubperm : (orderedNames methods).Subperm
      (methods.map BeanMethod.attrName) := List.Nodup.subperm hnodup hsub
  refine hsubperm.perm_of_length_le ?_
  rw [hlength, length_map]

omit [DecidableEq κ] in
theorem find?_attrName (h : (methods.map BeanMethod.attrName).Nodup)
    {method : BeanMethod κ} (hmethod : method ∈ methods) :
    (methods.find? fun other => other.attrName = method.attrName) = some method := by
  cases hfound : methods.find? fun other => other.attrName = method.attrName with
  | none =>
    rw [List.find?_eq_none] at hfound
    exact absurd (decide_eq_true rfl) (hfound method hmethod)
  | some found =>
    have hsame : found.attrName = method.attrName := by
      simpa using List.find?_some hfound
    rw [inj_on_of_nodup_map h (mem_of_find?_eq_some hfound) hmethod hsame]

theorem sortBeanMethods_perm (h : (methods.map BeanMethod.attrName).Nodup) :
    (sortBeanMethods methods).Perm methods := by
  unfold sortBeanMethods
  split
  · exact List.Perm.refl methods
  · rename_i hlength
    refine ((orderedNames_perm h (not_not.mp hlength)).filterMap _).trans ?_
    rw [filterMap_map]
    have hfind : ∀ method ∈ methods,
        ((fun name => methods.find? fun other => other.attrName = name) ∘
          BeanMethod.attrName) method = some method :=
      fun method hmethod => find?_attrName h hmethod
    rw [filterMap_congr hfind, filterMap_some]

end SortingPerm

/-! ## Making beans -/

structure Context (κ : Type) where
  registry : Registry κ
  beans : Beans κ

structure Product (κ : Type) where
  name : String
  scope : Scope := .singleton
  returnType : TypeExpr κ
  bean : Bean κ
  deriving DecidableEq, Repr

def Product.instance? (product : Product κ) : Option (Bean κ) :=
  if product.scope = .singleton then some product.bean else none

def BeanMethod.product (method : BeanMethod κ) (returnType : TypeExpr κ)
    (bean : Bean κ) : Product κ where
  name := if method.beanName = "" then method.attrName else method.beanName
  scope := method.scope
  returnType := returnType
  bean := bean

section Processing

variable [DecidableEq κ] (classes : Classes κ ε)

def Context.file (cls : TypeExpr κ) (scope : Scope) (name : String)
    (bean : Option (Bean κ)) (context : Context κ) : Context κ where
  registry := register classes cls scope name context.registry
  beans :=
    { context.beans with
      instances := Function.update context.beans.instances
        context.registry.nextId bean }

def Context.bindProduct (product : Product κ) (context : Context κ) : Context κ :=
  if product.returnType = product.bean.type then context
  else
    { context with
      registry :=
        bind product.returnType product.bean.type context.registry }

/-- What becomes of a bean which a method has made. -/
def publish (context : Context κ) (product : Product κ) : Context κ :=
  let bound := (context.file classes product.bean.type product.scope
    product.name product.instance?).bindProduct product
  if product.returnType ∈ bound.registry.registrations.keys then bound
  else bound.file classes product.returnType product.scope "" product.instance?

variable (registry : Registry κ)

def beanArgumentError (config : TypeExpr κ) (method : BeanMethod κ)
    (parameter : Parameter κ) : NoSuchBean κ where
  beanType :=
    if classes.isType parameter.type then some parameter.type else none
  requiredBy :=
    some (classes.qualname config ++ "." ++ method.functionName ++ "()")
  parameter := some (parameter.name ++ ": " ++ classes.repr parameter.type)

/-- One round of the loop of `_call_bean_method`. -/
def beanArgument (config : TypeExpr κ) (method : BeanMethod κ)
    (parameter : Parameter κ) : Resolving κ ε (Option (Supplied κ)) :=
  Async.catching (do
      return some (← resolveParam classes registry (.parameter parameter.name) parameter.type))
    (exceptMissing (if parameter.hasDefault then pure none
      else Async.throw (.noSuchBean (beanArgumentError classes config method parameter))))

def beanArguments (config : TypeExpr κ) (method : BeanMethod κ) :
    List (Parameter κ) → Resolving κ ε (List (String × Supplied κ))
  | [] => pure []
  | parameter :: parameters => do
      let argument ← beanArgument classes registry config method parameter
      let kwargs ← beanArguments config method parameters
      match argument with
      | some supplied => return (parameter.name, supplied) :: kwargs
      | none => return kwargs

variable (factories : Factories κ ε) (declarations : Declarations κ)
variable (depth : ℕ)

def callBeanMethod (config : TypeExpr κ) (method : BeanMethod κ) :
    Resolving κ ε (TypeExpr κ) := do
  let kwargs ←
    beanArguments classes registry config method method.parameters
  userCode (factories.make config method.attrName kwargs)

def makeBean (config : TypeExpr κ) (method : BeanMethod κ) (beans : Beans κ) :
    Option (Except (Failure κ ε) (Bean κ) × Beans κ) :=
  (Coroutine.perform (answerQuery classes registry (resolveRegistration classes registry depth)
      (some beans.nextBean))
    (callBeanMethod classes registry factories config method)
    { beans with nextBean := beans.nextBean + 1 }).map fun made =>
      (made.1.map (Bean.mk beans.nextBean), made.2)

def processMethods (config : TypeExpr κ) : List (BeanMethod κ) → Context κ →
      Option (Except (Failure κ ε) Unit × Context κ)
  | [], context => some (.ok (), context)
  | method :: methods, context =>
    match method.returnType with
    | none => processMethods config methods context
    | some returnType =>
      match makeBean classes context.registry factories depth config
          method context.beans with
      | none => none
      | some (.error failure, beans) =>
        some (.error failure, { context with beans := beans })
      | some (.ok bean, beans) =>
        processMethods config methods (publish classes { context with beans := beans }
            (method.product returnType bean))

def processConfiguration (cls : TypeExpr κ) (context : Context κ) :
    Option (Except (Failure κ ε) Unit × Context κ) :=
  match call classes context.registry depth
      (resolve classes context.registry .outermost cls) context.beans with
  | none => none
  | some (.error failure, beans) =>
    some (.error failure, { context with beans := beans })
  | some (.ok config, beans) =>
    processMethods classes factories depth config
      (sortBeanMethods ((factories.methods config).filter fun method =>
        shouldIncludeMethod declarations context.registry method.conditions))
      { context with beans := beans }

def processEach : List (TypeExpr κ) → Context κ → Option (Except (Failure κ ε) Unit × Context κ)
  | [], context => some (.ok (), context)
  | cls :: rest, context =>
    match processConfiguration classes factories declarations depth cls
        context with
    | none => none
    | some (.error failure, after) => some (.error failure, after)
    | some (.ok _, after) => processEach rest after

def processConfigurations (auto : Bool) (context : Context κ) :
    Option (Except (Failure κ ε) Unit × Context κ) :=
  processEach classes factories declarations depth
    (context.registry.registrations.keys.filter fun cls =>
      factories.isConfiguration cls && factories.isAuto cls == auto)
    context

end Processing

def Grows (before after : Beans κ) : Prop :=
  ∀ id bean, before.instances id = some bean → after.instances id = some bean

theorem Grows.trans {first second third : Beans κ}
    (hfirst : Grows first second) (hsecond : Grows second third) :
    Grows first third :=
  fun id bean h => hsecond id bean (hfirst id bean h)

section Growing

variable [DecidableEq κ] {classes : Classes κ ε} {registry : Registry κ}

omit [DecidableEq κ] in
theorem grows_keep {reg : Registration κ} {before middle : Beans κ}
    (hnone : (held classes before reg : Option (Except (Failure κ ε) (Bean κ))) = none)
    (hmiddle : Grows before middle) (bean : Bean κ) :
    Grows before (keep classes reg bean middle) := by
  intro id other hother
  have hold := hmiddle id other hother
  unfold keep
  cases hscope : reg.scope with
  | transient => exact hold
  | request => exact hold
  | singleton =>
    have hne : id ≠ reg.id := by
      rintro rfl
      unfold held at hnone
      simp [hscope, hother] at hnone
    exact (Function.update_of_ne hne _ _).trans hold

variable {factories : Factories κ ε}

theorem Wellformed.beanArgument (config : TypeExpr κ)
    (method : BeanMethod κ) (parameter : Parameter κ) :
    Wellformed registry (Container.beanArgument classes registry config method parameter) := by
  refine exceptMissing (bind (resolveParam _ parameter.type) fun supplied =>
      pure (some supplied)) ?_
  split
  · exact pure none
  · exact throw (not_circular_of_noSuchBean _)

theorem Wellformed.callBeanMethod (config : TypeExpr κ) (method : BeanMethod κ) :
    Wellformed registry
      (Container.callBeanMethod classes registry factories config method) := by
  refine bind ?_ fun kwargs => userCode _
  induction method.parameters with
  | nil => exact pure []
  | cons parameter parameters ih =>
    refine bind (beanArgument config method parameter) fun argument =>
      bind ih fun kwargs => ?_
    cases argument with
    | none => exact pure kwargs
    | some supplied => exact pure _

end Growing

end PyFly.Container
