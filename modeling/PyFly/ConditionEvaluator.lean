import PyFly.Container

/-!
# Profiles and conditions of beans

Before beans are created, the application context removes the registrations
whose profile is not active or whose conditions fail.  Each pass judges all
classes by the registry it begins with, and removes those which fail
afterwards.
-/

namespace PyFly.Container

open Library List

variable {κ : Type}

/-! ## Profiles -/

/-- The active profiles; `space` tells the characters `str.strip` removes. -/
structure Environment where
  activeProfiles : List (List Char)
  space : Char → Bool

namespace Environment

variable (environment : Environment)

def strip (text : List Char) : List Char :=
  ((text.dropWhile environment.space).reverse.dropWhile environment.space).reverse

def matchesSingle : List Char → Bool
  | '!' :: profile => profile ∉ environment.activeProfiles
  | profile => profile ∈ environment.activeProfiles

def matchesProfileExpression (expr : List Char) : Bool :=
  if ',' ∈ expr then
    (((expr.splitOn ',').map environment.strip).filter (· ≠ [])).any environment.matchesSingle
  else environment.matchesSingle expr

def acceptsProfiles (profiles : List (List Char)) : Bool :=
  profiles.any environment.matchesProfileExpression

end Environment

/-! ## Conditions -/

inductive Condition (κ : Type)
  | onProperty (key : String) (havingValue : String)
  | onClass (moduleName : String)
  | onMissingBean (beanType : TypeExpr κ)
  | onBean (beanType : TypeExpr κ)
  | unknown (type : String)
  deriving DecidableEq, Repr

/-- `_BEAN_DEPENDENT_TYPES` -/
def Condition.beanDependent : Condition κ → Bool
  | .onMissingBean _ => true
  | .onBean _ => true
  | _ => false

/-- The decorators of the classes, and what they are judged by. -/
structure Declarations (κ : Type) where
  /-- `__pyfly_profile__`, or an empty text. -/
  profile : TypeExpr κ → List Char
  /-- What `__pyfly_condition__` returns, if there is one. -/
  condition : TypeExpr κ → Option Bool
  /-- `__pyfly_conditions__` -/
  conditions : TypeExpr κ → List (Condition κ)
  /-- `str(config.get(key))`, unless it is `None`. -/
  property : String → Option String
  /-- `str.lower` -/
  lower : String → String
  importable : String → Bool
  /-- `issubclass`; none when it raises a `TypeError`. -/
  issubclass : TypeExpr κ → TypeExpr κ → Option Bool

section Evaluator

variable [DecidableEq κ] (declarations : Declarations κ)
variable (registry : Registry κ)

def hasBeanOfType (beanType : TypeExpr κ) (exclude : Option (TypeExpr κ)) :
    Bool :=
  registry.registrations.keys.any fun cls =>
    cls ≠ beanType && exclude ≠ some cls && declarations.issubclass cls beanType == some true

def evalOnProperty (key havingValue : String) : Bool :=
  match declarations.property key with
  | none => false
  | some value =>
    if havingValue = "" then true
    else declarations.lower value == declarations.lower havingValue

def evaluate (declaring : Option (TypeExpr κ)) : Condition κ → Bool
  | .onProperty key havingValue => evalOnProperty declarations key havingValue
  | .onClass moduleName => declarations.importable moduleName
  | .onMissingBean beanType =>
    !hasBeanOfType declarations registry beanType declaring
  | .onBean beanType => hasBeanOfType declarations registry beanType declaring
  | .unknown _ => true

def shouldInclude (beanPass : Bool) (cls : TypeExpr κ) : Bool :=
  (beanPass || (declarations.condition cls).getD true) &&
    (declarations.conditions cls).all fun condition =>
      condition.beanDependent != beanPass || evaluate declarations registry (some cls) condition

def shouldIncludeMethod (conditions : List (Condition κ)) : Bool :=
  conditions.all (evaluate declarations registry none)

end Evaluator

/-! ## Removal -/

def Registry.restricted (registry : Registry κ)
    (registrations : Dict (TypeExpr κ) (Registration κ))
    (named : Dict String (Registration κ))
    (hregistrations : ∀ item ∈ registrations.items, item ∈ registry.registrations.items)
    (hnamed : ∀ item ∈ named.items, item ∈ registry.named.items) :
    Registry κ :=
  have hall : ∀ reg ∈ registrations.values ++ named.values, reg ∈ registry.all := by
    intro reg hreg
    obtain hleft | hright := mem_append.mp hreg
    · obtain ⟨item, hitem, rfl⟩ := mem_map.mp hleft
      exact mem_append_left _ (mem_map.mpr ⟨item, hregistrations item hitem, rfl⟩)
    · obtain ⟨item, hitem, rfl⟩ := mem_map.mp hright
      exact mem_append_right _ (mem_map.mpr ⟨item, hnamed item hitem, rfl⟩)
  { registrations := registrations
    named := named
    bindings := registry.bindings
    nextId := registry.nextId
    keyed := fun item hitem => registry.keyed item (hregistrations item hitem)
    below := fun reg hreg => registry.below reg (hall reg hreg)
    identified := fun first hfirst second hsecond =>
      registry.identified first (hall first hfirst) second
        (hall second hsecond) }

section Removal

variable [DecidableEq κ]

def namedWithout (registry : Registry κ) (reg : Registration κ) :
    Dict String (Registration κ) :=
  if reg.name = "" then registry.named else registry.named.erase reg.name

def removeRegistration (registry : Registry κ) (cls : TypeExpr κ) : Registry κ :=
  match registry.registrations.get? cls with
  | none => registry
  | some reg =>
    registry.restricted (registry.registrations.erase cls) (namedWithout registry reg)
      (fun _ hitem => (Dict.mem_items_erase.mp hitem).1)
      (by
        intro item hitem
        unfold namedWithout at hitem
        split at hitem
        · exact hitem
        · exact (Dict.mem_items_erase.mp hitem).1)

def removeWhere (fails : TypeExpr κ → Bool) (registry : Registry κ) : Registry κ :=
  (registry.registrations.keys.filter fails).foldl removeRegistration registry

variable (declarations : Declarations κ) (environment : Environment)

def filterByProfile (registry : Registry κ) : Registry κ :=
  removeWhere
    (fun cls =>
      declarations.profile cls ≠ [] && !environment.acceptsProfiles [declarations.profile cls])
    registry

def evaluateConditions (registry : Registry κ) : Registry κ :=
  removeWhere (fun cls => !shouldInclude declarations registry false cls) registry

def evaluateBeanConditions (registry : Registry κ) : Registry κ :=
  removeWhere (fun cls => !shouldInclude declarations registry true cls) registry

end Removal

end PyFly.Container
