import PyFly.Library.InsertionDict
import PyFly.Library.PartialCourse

/-!
# The dependency injection container

Registrations, named registrations and interface bindings, and the program of
a resolution: which registrations are asked for, in which order, and what
becomes of their failures.  A class which is registered again gets a new
registration object; a name keeps the one it was given with.
-/

namespace PyFly.Container

open Library List

/-- The types which annotations name.  Classes, and the forms the container
does not look into, are `cls`; an `Annotated` form is given with the name of
its first `Qualifier`. -/
inductive TypeExpr (κ : Type)
  | cls (cls : κ)
  | annotated (base : TypeExpr κ) (qualifier : Option String)
  | optional (inner : TypeExpr κ)
  | listOf (item : TypeExpr κ)
  | classRef (arg : Option κ)
  deriving DecidableEq, Repr

instance {κ : Type} [DecidableEq κ] : LawfulBEq (TypeExpr κ) :=
  inferInstance

inductive Scope
  | singleton
  | transient
  | request
  deriving DecidableEq, Repr

/-- A `Registration` object, by its identity; the instance it caches is part
of the state of the container. -/
structure Registration (κ : Type) where
  id : ℕ
  implType : TypeExpr κ
  scope : Scope := .singleton
  name : String := ""
  deriving DecidableEq, Repr

variable {κ ε : Type}

structure NoSuchBean (κ : Type) where
  beanType : Option (TypeExpr κ) := none
  beanName : Option String := none
  requiredBy : Option String := none
  parameter : Option String := none
  suggestions : List String := []
  deriving DecidableEq, Repr

/-- What a resolution raises; `other` is an exception of the code of a
bean. -/
inductive Failure (κ ε : Type)
  | noSuchBean (error : NoSuchBean κ)
  | noUniqueBean (beanType : TypeExpr κ) (candidates : List (TypeExpr κ))
  | currentlyInCreation (chain : List (TypeExpr κ)) (current : TypeExpr κ)
  | keyError (key : TypeExpr κ)
  | runtimeError (message : String)
  | other (error : ε)
  deriving DecidableEq, Repr

inductive Supplied (κ : Type)
  | none
  | bean (type : TypeExpr κ)
  | beans (types : List (TypeExpr κ))
  deriving DecidableEq, Repr

/-- A parameter of `__init__` with a type hint. -/
structure Parameter (κ : Type) where
  name : String
  type : TypeExpr κ
  hasDefault : Bool := false
  deriving DecidableEq, Repr

inductive FieldMark
  | value
  | autowired (qualifier : Option String) (required : Bool)
  deriving DecidableEq, Repr

structure Field (κ : Type) where
  name : String
  type : TypeExpr κ
  mark : FieldMark
  deriving DecidableEq, Repr

/-- The code of the application, as the container sees it: its annotations,
what its constructors raise when they are called with certain beans, and its
names. -/
structure Classes (κ ε : Type) where
  /-- `get_type_hints` of `__init__`, in order. -/
  parameters : TypeExpr κ → Except ε (List (Parameter κ))
  construct : TypeExpr κ → List (String × Supplied κ) → Except ε Unit
  /-- The marked fields; none when the hints cannot be resolved. -/
  fields : TypeExpr κ → Option (List (Field κ))
  /-- `Value.resolve` of a field. -/
  resolveValue : TypeExpr κ → String → Except ε Unit
  /-- `__pyfly_primary__` -/
  isPrimary : TypeExpr κ → Bool
  /-- `isinstance(param_type, type)` -/
  isType : TypeExpr κ → Bool
  /-- `__pyfly_bean_name__`, or an empty text. -/
  beanName : TypeExpr κ → String
  /-- `__pyfly_scope__` -/
  beanScope : TypeExpr κ → Option Scope
  /-- `__name__`, or an empty text. -/
  typeName : TypeExpr κ → String
  qualname : TypeExpr κ → String
  /-- `__name__`, or the `repr`. -/
  repr : TypeExpr κ → String
  /-- `difflib.get_close_matches` -/
  closeMatches : String → List String → List String
  /-- The class `Config`. -/
  config : TypeExpr κ

def TypeExpr.name : TypeExpr String → String
  | .cls name => name
  | .annotated base _ => base.name
  | .optional _ => "Optional"
  | .listOf _ => "list"
  | .classRef _ => "type"

/-- Classes which are told apart by their names, and whose code raises
nothing. -/
def Classes.plain (parameters : TypeExpr String → List (Parameter String))
    (fields : TypeExpr String → List (Field String)) :
    Classes String Empty where
  parameters cls := .ok (parameters cls)
  construct _ _ := .ok ()
  fields cls := some (fields cls)
  resolveValue _ _ := .ok ()
  isPrimary _ := false
  isType
    | .cls _ => true
    | .classRef arg => arg.isNone
    | _ => false
  beanName _ := ""
  beanScope _ := none
  typeName := TypeExpr.name
  qualname := TypeExpr.name
  repr := TypeExpr.name
  closeMatches _ _ := []
  config := .cls "Config"

/-! ## The registry -/

structure Registry (κ : Type) where
  registrations : Dict (TypeExpr κ) (Registration κ)
  named : Dict String (Registration κ)
  bindings : Dict (TypeExpr κ) (List (TypeExpr κ))
  nextId : ℕ
  keyed : ∀ item ∈ registrations.items, item.2.implType = item.1
  below : ∀ reg ∈ registrations.values ++ named.values, reg.id < nextId
  identified : ∀ reg ∈ registrations.values ++ named.values,
    ∀ other ∈ registrations.values ++ named.values, reg.id = other.id → reg = other

namespace Registry

def empty : Registry κ where
  registrations := Dict.empty
  named := Dict.empty
  bindings := Dict.empty
  nextId := 0
  keyed := by simp [Dict.empty]
  below := by simp [Dict.empty, Dict.values]
  identified := by simp [Dict.empty, Dict.values]

def all (registry : Registry κ) : List (Registration κ) :=
  registry.registrations.values ++ registry.named.values

def implTypes (registry : Registry κ) : List (TypeExpr κ) :=
  registry.all.map Registration.implType

section Registering

variable [DecidableEq κ] {registry : Registry κ}

variable {reg : Registration κ}

theorem keyed_set {cls : TypeExpr κ} (h : reg.implType = cls) :
    ∀ item ∈ (registry.registrations.set cls reg).items, item.2.implType = item.1 := by
  intro item hitem
  obtain rfl | hold := Dict.mem_items_set hitem
  · exact h
  · exact registry.keyed item hold

theorem mem_all_set {other : Registration κ} {cls : TypeExpr κ}
    {named : Dict String (Registration κ)}
    (hnamed : ∀ other ∈ named.values, other = reg ∨ other ∈ registry.named.values)
    (h : other ∈ (registry.registrations.set cls reg).values ++ named.values) :
    other = reg ∨ other ∈ registry.all := by
  obtain hleft | hright := mem_append.mp h
  · obtain ⟨item, hitem, rfl⟩ := mem_map.mp hleft
    obtain rfl | hold := Dict.mem_items_set hitem
    · exact .inl rfl
    · exact .inr (mem_append_left _ (mem_map.mpr ⟨item, hold, rfl⟩))
  · obtain hnew | hold := hnamed other hright
    · exact .inl hnew
    · exact .inr (mem_append_right _ hold)

omit [DecidableEq κ] in
theorem mem_named_set {other : Registration κ} {name : String}
    (h : other ∈ (if name = "" then registry.named
      else registry.named.set name reg).values) :
    other = reg ∨ other ∈ registry.named.values := by
  split at h
  · exact .inr h
  · obtain ⟨item, hitem, rfl⟩ := mem_map.mp h
    obtain rfl | hold := Dict.mem_items_set hitem
    · exact .inl rfl
    · exact .inr (mem_map.mpr ⟨item, hold, rfl⟩)

end Registering

end Registry

section Operations

variable [DecidableEq κ] (classes : Classes κ ε)

def register (cls : TypeExpr κ) (scope : Scope) (name : String)
    (registry : Registry κ) : Registry κ :=
  let beanName := if name = "" then classes.beanName cls else name
  let reg : Registration κ :=
    { id := registry.nextId
      implType := cls
      scope := (classes.beanScope cls).getD scope
      name := beanName }
  { registrations := registry.registrations.set cls reg
    named :=
      if beanName = "" then registry.named
      else registry.named.set beanName reg
    bindings := registry.bindings
    nextId := registry.nextId + 1
    keyed := Registry.keyed_set rfl
    below := by
      intro other hother
      obtain rfl | hold := Registry.mem_all_set
        (fun _ => Registry.mem_named_set) hother
      · exact Nat.lt_succ_self registry.nextId
      · exact (registry.below other hold).trans
          (Nat.lt_succ_self registry.nextId)
    identified := by
      intro first hfirst second hsecond hid
      obtain rfl | hfirst := Registry.mem_all_set
        (fun _ => Registry.mem_named_set) hfirst
      · obtain rfl | hsecond := Registry.mem_all_set
          (fun _ => Registry.mem_named_set) hsecond
        · rfl
        · exact absurd hid (registry.below second hsecond).ne'
      · obtain rfl | hsecond := Registry.mem_all_set
          (fun _ => Registry.mem_named_set) hsecond
        · exact absurd hid (registry.below first hfirst).ne
        · exact registry.identified first hfirst second hsecond hid }

def bind (interface implementation : TypeExpr κ) (registry : Registry κ) : Registry κ :=
  let impls := (registry.bindings.get? interface).getD []
  { registry with
    bindings := registry.bindings.set interface
      (if implementation ∈ impls then impls else impls ++ [implementation]) }

end Operations

/-! ## The program of a resolution -/

inductive Slot
  | outermost
  | parameter (name : String)
  | field (name : String)
  deriving DecidableEq, Repr

inductive Key (κ : Type)
  | type (type : TypeExpr κ)
  | name (name : String)
  deriving DecidableEq, Repr

/-- What a resolution asks for: a bean of a registration, or the instance of
the `Config` bean. -/
inductive Query (κ : Type)
  | resolve (slot : Slot) (key : Key κ) (reg : Registration κ)
  | config (owner : TypeExpr κ) (field : String)
  deriving DecidableEq, Repr

/-- A resolution: `await` stands where the code calls
`_resolve_registration`. -/
abbrev Resolving (κ ε α : Type) :=
  Async (Query κ) (Except (Failure κ ε) (TypeExpr κ)) (Failure κ ε) α

def exceptMissing {α : Type} (handler : Resolving κ ε α) : Failure κ ε → Resolving κ ε α
  | .noSuchBean _ => handler
  | .noUniqueBean _ _ => handler
  | failure => Async.throw failure

def userCode {α : Type} : Except ε α → Resolving κ ε α
  | .ok value => pure value
  | .error error => Async.throw (.other error)

section Programs

variable [DecidableEq κ] (classes : Classes κ ε) (registry : Registry κ)

def similarTypeNames (name : String) : List String :=
  if name = "" then []
  else classes.closeMatches name (registry.registrations.keys.map classes.repr)

/-- `self._resolve_registration(self._registrations[impl])` -/
def resolveImpl (slot : Slot) (key : Key κ) (impl : TypeExpr κ) : Resolving κ ε (TypeExpr κ) :=
  match registry.registrations.get? impl with
  | some reg => Async.ask (.resolve slot key reg)
  | none => Async.throw (.keyError impl)

def resolve (slot : Slot) (type : TypeExpr κ) : Resolving κ ε (TypeExpr κ) :=
  match registry.registrations.get? type with
  | some reg => Async.ask (.resolve slot (.type type) reg)
  | none =>
    match (registry.bindings.get? type).getD [] with
    | [] =>
      Async.throw (.noSuchBean
        { beanType := some type
          suggestions :=
            similarTypeNames classes registry (classes.typeName type) })
    | [impl] => resolveImpl registry slot (.type type) impl
    | impls =>
      match impls.find? classes.isPrimary with
      | some impl => resolveImpl registry slot (.type type) impl
      | none => Async.throw (.noUniqueBean type impls)

def resolveByName (slot : Slot) (name : String) : Resolving κ ε (TypeExpr κ) :=
  match registry.named.get? name with
  | some reg => Async.ask (.resolve slot (.name name) reg)
  | none =>
    Async.throw (.noSuchBean { beanName := some name, suggestions := registry.named.keys })

def resolveImpls (slot : Slot) : List (TypeExpr κ) → Resolving κ ε (List (TypeExpr κ))
  | [] => pure []
  | impl :: impls => do
      let bean ← resolveImpl registry slot (.type impl) impl
      let beans ← resolveImpls slot impls
      return bean :: beans

def resolveAll (slot : Slot) (type : TypeExpr κ) : Resolving κ ε (List (TypeExpr κ)) :=
  resolveImpls registry slot ((registry.bindings.get? type).getD [])

def resolveParam (slot : Slot) : TypeExpr κ → Resolving κ ε (Supplied κ)
  | .annotated _ (some name) => do
      return .bean (← resolveByName registry slot name)
  | .annotated base none => resolveParam slot base
  | .optional inner =>
    Async.catching (do return .bean (← resolve classes registry slot inner))
      (exceptMissing (pure .none))
  | .listOf item => do return .beans (← resolveAll registry slot item)
  | .classRef arg =>
    Async.throw (.noSuchBean
      { beanType :=
          if classes.isType (.classRef arg) then some (.classRef arg)
          else none })
  | .cls cls => do return .bean (← resolve classes registry slot (.cls cls))

def parameterError (owner : TypeExpr κ) (parameter : Parameter κ) : NoSuchBean κ where
  beanType :=
    if classes.isType parameter.type then some parameter.type else none
  requiredBy := some (classes.qualname owner ++ ".__init__()")
  parameter := some (parameter.name ++ ": " ++ classes.repr parameter.type)
  suggestions :=
    similarTypeNames classes registry (classes.typeName parameter.type)

/-- One round of the loop over the parameters: the argument, if one is
passed. -/
def resolveParameter (owner : TypeExpr κ) (parameter : Parameter κ) :
    Resolving κ ε (Option (Supplied κ)) :=
  Async.catching (do
      return some (← resolveParam classes registry (.parameter parameter.name) parameter.type))
    (exceptMissing (if parameter.hasDefault then pure none
      else Async.throw (.noSuchBean (parameterError classes registry owner parameter))))

def collectKwargs (owner : TypeExpr κ) :
    List (Parameter κ) → Resolving κ ε (List (String × Supplied κ))
  | [] => pure []
  | parameter :: parameters => do
      let argument ← resolveParameter classes registry owner parameter
      let kwargs ← collectKwargs owner parameters
      match argument with
      | some supplied => return (parameter.name, supplied) :: kwargs
      | none => return kwargs

def fieldError (owner : TypeExpr κ) (field : Field κ) : NoSuchBean κ where
  beanType := if classes.isType field.type then some field.type else none
  requiredBy := some (classes.qualname owner ++ "." ++ field.name)
  parameter := some (field.name ++ ": " ++ classes.repr field.type ++ " = Autowired()")

def injectField (owner : TypeExpr κ) (field : Field κ) : Resolving κ ε Unit :=
  match field.mark with
  | .value => do
      let _ ← Async.ask (.config owner field.name)
      userCode (classes.resolveValue owner field.name)
  | .autowired (some name) _ => do
      let _ ← resolveByName registry (.field field.name) name
      return ()
  | .autowired none required =>
    match field.type with
    | .annotated base qualifier => do
        let _ ← resolveParam classes registry (.field field.name)
          (.annotated base qualifier)
        return ()
    | type =>
      Async.catching (do
          let _ ← resolve classes registry (.field field.name) type
          return ())
        (exceptMissing (if required then
            Async.throw (.noSuchBean (fieldError classes owner field))
          else pure ()))

def injectAutowiredFields (owner : TypeExpr κ) : Resolving κ ε Unit :=
  match classes.fields owner with
  | none => pure ()
  | some fields => Async.forEach fields (injectField classes registry owner)

/-- The body of `_create_instance`, for a class which is not in creation. -/
def creation (owner : TypeExpr κ) : Resolving κ ε Unit := do
  let parameters ← userCode (classes.parameters owner)
  let kwargs ← collectKwargs classes registry owner parameters
  userCode (classes.construct owner kwargs)
  injectAutowiredFields classes registry owner

end Programs

end PyFly.Container
