import Mathlib.Logic.Function.Basic
import PyFly.ResolutionPrograms

/-!
# Resolutions

The state a container keeps while it resolves: the instances of its
registrations, the attributes of the active request and the classes whose
creation is in progress.  A registration either holds its bean already or has
it created; a class which is asked for while it is in creation is refused.
-/

namespace PyFly.Container

open Library

variable {κ ε : Type}

structure Bean (κ : Type) where
  id : ℕ
  type : TypeExpr κ
  deriving DecidableEq, Repr

inductive Event (κ : Type)
  | entered (cls : TypeExpr κ)
  | left (cls : TypeExpr κ)
  | created (reg : ℕ) (bean : Bean κ)
  | returned (reg : ℕ) (bean : Bean κ)
  | injected (owner : Option ℕ) (slot : Slot) (key : Key κ) (reg : ℕ) (bean : Bean κ)
  deriving DecidableEq, Repr

/-- The state: `Registration.instance`, the attributes of the active
`RequestContext`, `_resolving`, and the history. -/
structure Beans (κ : Type) where
  instances : ℕ → Option (Bean κ)
  request : Option (Dict String (Bean κ))
  resolving : List (TypeExpr κ)
  nextBean : ℕ
  events : List (Event κ)

/-- The state of a new container, in or outside of a request. -/
def Beans.initial (request : Option (Dict String (Bean κ))) : Beans κ where
  instances _ := none
  request := request
  resolving := []
  nextBean := 0
  events := []

namespace Beans

def emit (event : Event κ) (beans : Beans κ) : Beans κ :=
  { beans with events := beans.events ++ [event] }

@[simp] theorem instances_emit (event : Event κ) (beans : Beans κ) :
    (beans.emit event).instances = beans.instances := rfl

@[simp] theorem request_emit (event : Event κ) (beans : Beans κ) :
    (beans.emit event).request = beans.request := rfl

@[simp] theorem resolving_emit (event : Event κ) (beans : Beans κ) :
    (beans.emit event).resolving = beans.resolving := rfl

@[simp] theorem nextBean_emit (event : Event κ) (beans : Beans κ) :
    (beans.emit event).nextBean = beans.nextBean := rfl

@[simp] theorem events_emit (event : Event κ) (beans : Beans κ) :
    (beans.emit event).events = beans.events ++ [event] := rfl

end Beans

section Resolution

variable [DecidableEq κ] (classes : Classes κ ε) (registry : Registry κ)

def cacheKey (reg : Registration κ) : String :=
  "__pyfly_bean_" ++ classes.qualname reg.implType

def noRequest (reg : Registration κ) : Failure κ ε :=
  .runtimeError ("No active request context for REQUEST-scoped bean " ++
    classes.typeName reg.implType ++
    ". Ensure a RequestContextFilter is active.")

def held (beans : Beans κ) (reg : Registration κ) : Option (Except (Failure κ ε) (Bean κ)) :=
  match reg.scope with
  | .singleton => (beans.instances reg.id).map .ok
  | .request =>
    match beans.request with
    | none => some (.error (noRequest classes reg))
    | some attributes =>
      (attributes.get? (cacheKey classes reg)).map .ok
  | .transient => none

def keep (reg : Registration κ) (bean : Bean κ) (beans : Beans κ) : Beans κ :=
  match reg.scope with
  | .singleton =>
    { beans with
      instances := Function.update beans.instances reg.id (some bean) }
  | .request =>
    { beans with
      request := beans.request.map (·.set (cacheKey classes reg) bean) }
  | .transient => beans

def configReply (beans : Beans κ) (owner : TypeExpr κ) (field : String) :
    Except (Failure κ ε) (TypeExpr κ) :=
  match (registry.registrations.get? classes.config).bind
      fun reg => beans.instances reg.id with
  | some bean => .ok bean.type
  | none =>
    .error (.runtimeError ("Cannot resolve @Value for " ++
      classes.qualname owner ++ "." ++ field ++
      ": Config bean not registered"))

abbrev Resolver (κ ε : Type) :=
  Registration κ → Beans κ → Option (Except (Failure κ ε) (Bean κ) × Beans κ)

def deliver (owner : Option ℕ) (slot : Slot) (key : Key κ) (reg : Registration κ) :
    Except (Failure κ ε) (Bean κ) × Beans κ → Except (Failure κ ε) (TypeExpr κ) × Beans κ
  | (.ok bean, beans) =>
    (.ok bean.type, beans.emit (.injected owner slot key reg.id bean))
  | (.error failure, beans) => (.error failure, beans)

/-- What the container does for a query of a program; `owner` is the bean the
program creates. -/
def answerQuery (resolver : Resolver κ ε) (owner : Option ℕ) :
    Query κ → Beans κ → Option (Except (Failure κ ε) (TypeExpr κ) × Beans κ)
  | .config cls field, beans =>
    some (configReply classes registry beans cls field, beans)
  | .resolve slot key reg, beans =>
    (resolver reg beans).map (deliver owner slot key reg)

/-- The state in which the body of `_create_instance` begins. -/
def enter (cls : TypeExpr κ) (beans : Beans κ) : Beans κ :=
  { beans.emit (.entered cls) with
    resolving := beans.resolving ++ [cls]
    nextBean := beans.nextBean + 1 }

/-- The `finally` clause. -/
def leave (cls : TypeExpr κ) (beans : Beans κ) : Beans κ :=
  { beans.emit (.left cls) with resolving := beans.resolving.erase cls }

/-- The end of `_create_instance`, for a bean with an identity. -/
def conclude (reg : Registration κ) (id : ℕ) :
    Except (Failure κ ε) Unit × Beans κ → Except (Failure κ ε) (Bean κ) × Beans κ
  | (.ok _, beans) =>
    (.ok ⟨id, reg.implType⟩,
      leave reg.implType (beans.emit (.created reg.id ⟨id, reg.implType⟩)))
  | (.error failure, beans) => (.error failure, leave reg.implType beans)

def createInstance (resolver : Resolver κ ε) : Resolver κ ε :=
  fun reg beans =>
    if reg.implType ∈ beans.resolving then
      some (.error (.currentlyInCreation beans.resolving reg.implType),
        beans.emit (.entered reg.implType))
    else
      ((creation classes registry reg.implType).perform
        (answerQuery classes registry resolver (some beans.nextBean))
        (enter reg.implType beans)).map (conclude reg beans.nextBean)

def settle (reg : Registration κ) : Except (Failure κ ε) (Bean κ) × Beans κ →
      Except (Failure κ ε) (Bean κ) × Beans κ
  | (.ok bean, beans) =>
    (.ok bean, (keep classes reg bean beans).emit (.returned reg.id bean))
  | (.error failure, beans) => (.error failure, beans)

/-- `_resolve_registration`, with a bound on the depth of the recursion. -/
def resolveRegistration : ℕ → Resolver κ ε
  | 0, _, _ => none
  | depth + 1, reg, beans =>
    match held classes beans reg with
    | some (.ok bean) =>
      some (.ok bean, beans.emit (.returned reg.id bean))
    | some (.error failure) => some (.error failure, beans)
    | none =>
          (createInstance classes registry (resolveRegistration depth)
        reg beans).map (settle classes reg)

def call {α : Type} (depth : ℕ) (program : Resolving κ ε α)
    (beans : Beans κ) : Option (Except (Failure κ ε) α × Beans κ) :=
  Coroutine.perform (answerQuery classes registry (resolveRegistration classes registry depth)
      none) program beans

def Registry.depth : ℕ := registry.implTypes.length + 1

variable {classes registry}

variable {beans : Beans κ} {reg : Registration κ}

omit [DecidableEq κ] in
theorem held_error {failure : Failure κ ε}
    (h : held classes beans reg = some (.error failure)) :
    failure = noRequest classes reg := by
  unfold held at h
  cases hscope : reg.scope with
  | singleton => simp [hscope] at h
  | transient => simp [hscope] at h
  | request =>
    cases hrequest : beans.request with
    | none => simpa [hscope, hrequest, eq_comm] using h
    | some attributes => simp [hscope, hrequest] at h

omit [DecidableEq κ] in
theorem held_congr {beans' : Beans κ} (hinstances : beans'.instances = beans.instances)
    (hrequest : beans'.request = beans.request) (reg : Registration κ) :
    (held classes beans' reg : Option (Except (Failure κ ε) (Bean κ))) =
      held classes beans reg := by
  unfold held
  rw [hinstances, hrequest]

/-! ## What a step does -/

theorem resolveRegistration_of_held {beans : Beans κ}
    {reg : Registration κ} {answer : Except (Failure κ ε) (Bean κ)}
    (h : held classes beans reg = some answer) :
    ∃ after, ∀ depth, resolveRegistration classes registry (depth + 1) reg
      beans = some (answer, after) := by
  cases answer with
  | ok bean =>
    refine ⟨beans.emit (.returned reg.id bean), fun depth => ?_⟩
    rw [resolveRegistration, h]
  | error failure =>
    refine ⟨beans, fun depth => ?_⟩
    rw [resolveRegistration, h]

theorem resolveRegistration_of_none (h : (held classes beans reg :
      Option (Except (Failure κ ε) (Bean κ))) = none) (depth : ℕ) :
    resolveRegistration classes registry (depth + 1) reg beans =
      (createInstance classes registry
        (resolveRegistration classes registry depth) reg beans).map (settle classes reg) := by
  rw [resolveRegistration, h]

variable {resolver : Resolver κ ε}

theorem createInstance_of_mem (h : reg.implType ∈ beans.resolving) :
    createInstance classes registry resolver reg beans =
      some (.error (.currentlyInCreation beans.resolving reg.implType),
        beans.emit (.entered reg.implType)) :=
  if_pos h

theorem createInstance_of_not_mem (h : reg.implType ∉ beans.resolving) :
    createInstance classes registry resolver reg beans =
      ((creation classes registry reg.implType).perform
        (answerQuery classes registry resolver (some beans.nextBean))
        (enter reg.implType beans)).map (conclude reg beans.nextBean) :=
  if_neg h

theorem answerQuery_resolve_of_some {answered : Except (Failure κ ε) (Bean κ) × Beans κ}
    (h : resolver reg beans = some answered) (owner : Option ℕ) (slot : Slot)
    (key : Key κ) :
    answerQuery classes registry resolver owner (.resolve slot key reg)
      beans = some (deliver owner slot key reg answered) := by
  show (resolver reg beans).map (deliver owner slot key reg) = _
  rw [h]
  rfl

variable {after : Beans κ} {reply : Except (Failure κ ε) (Bean κ)}

theorem createInstance_cases
    (h : createInstance classes registry resolver reg beans = some (reply, after)) :
    (reg.implType ∈ beans.resolving ∧
      reply = .error (.currentlyInCreation beans.resolving reg.implType) ∧
      after = beans.emit (.entered reg.implType)) ∨
    (reg.implType ∉ beans.resolving ∧ ∃ result final,
      (creation classes registry reg.implType).perform
          (answerQuery classes registry resolver (some beans.nextBean))
          (enter reg.implType beans) = some (result, final) ∧
        ((result = .ok () ∧ reply = .ok ⟨beans.nextBean, reg.implType⟩ ∧
            after = leave reg.implType (final.emit (.created reg.id
                ⟨beans.nextBean, reg.implType⟩))) ∨
          ∃ failure, result = .error failure ∧ reply = .error failure ∧
            after = leave reg.implType final)) := by
  unfold createInstance at h
  split at h
  · rename_i hmem
    cases h
    exact .inl ⟨hmem, rfl, rfl⟩
  · rename_i hmem
    rw [Option.map_eq_some_iff] at h
    obtain ⟨⟨result, final⟩, hperform, hreply⟩ := h
    refine .inr ⟨hmem, result, final, hperform, ?_⟩
    cases result with
    | ok value =>
      cases hreply
      exact .inl ⟨rfl, rfl, rfl⟩
    | error failure =>
      cases hreply
      exact .inr ⟨failure, rfl, rfl, rfl⟩

theorem resolveRegistration_cases {depth : ℕ}
    (h : resolveRegistration classes registry (depth + 1) reg beans = some (reply, after)) :
    (∃ bean, held classes beans reg = some (.ok bean : Except (Failure κ ε) (Bean κ)) ∧
        reply = .ok bean ∧ after = beans.emit (.returned reg.id bean)) ∨
    (∃ failure, held classes beans reg = some (.error failure) ∧
        reply = .error failure ∧ after = beans) ∨
    ((held classes beans reg : Option (Except (Failure κ ε) (Bean κ))) = none ∧
      ∃ made middle, createInstance classes registry
          (resolveRegistration classes registry depth) reg beans = some (made, middle) ∧
        ((∃ bean, made = .ok bean ∧ reply = .ok bean ∧
            after = (keep classes reg bean middle).emit (.returned reg.id bean)) ∨
          ∃ failure, made = .error failure ∧ reply = .error failure ∧ after = middle)) := by
  rw [resolveRegistration] at h
  cases hheld : (held classes beans reg : Option (Except (Failure κ ε) (Bean κ))) with
  | some answer =>
    rw [hheld] at h
    cases answer with
    | ok bean =>
      cases h
      exact .inl ⟨bean, rfl, rfl, rfl⟩
    | error failure =>
      cases h
      exact .inr (.inl ⟨failure, rfl, rfl, rfl⟩)
  | none =>
    rw [hheld] at h
    obtain ⟨⟨made, middle⟩, hmade, hreply⟩ := Option.map_eq_some_iff.mp h
    refine .inr (.inr ⟨rfl, made, middle, hmade, ?_⟩)
    cases made with
    | ok bean =>
      cases hreply
      exact .inl ⟨bean, rfl, rfl, rfl⟩
    | error failure =>
      cases hreply
      exact .inr ⟨failure, rfl, rfl, rfl⟩

variable {owner : Option ℕ}

theorem answerQuery_resolve_cases {slot : Slot} {key : Key κ}
    {reply : Except (Failure κ ε) (TypeExpr κ)}
    (h : answerQuery classes registry resolver owner (.resolve slot key reg)
      beans = some (reply, after)) :
    ∃ made middle, resolver reg beans = some (made, middle) ∧ reply = made.map Bean.type ∧
      ((∃ bean, made = .ok bean ∧ after = middle.emit (.injected owner slot key reg.id bean)) ∨
        ∃ failure, made = .error failure ∧ after = middle) := by
  obtain ⟨⟨made, middle⟩, hmade, hreply⟩ := Option.map_eq_some_iff.mp h
  refine ⟨made, middle, hmade, ?_⟩
  cases made with
  | ok bean =>
    cases hreply
    exact ⟨rfl, .inl ⟨bean, rfl, rfl⟩⟩
  | error failure =>
    cases hreply
    exact ⟨rfl, .inr ⟨failure, rfl, rfl⟩⟩

omit [DecidableEq κ] in
@[simp] theorem resolving_keep (reg : Registration κ) (bean : Bean κ)
    (beans : Beans κ) :
    (keep classes reg bean beans).resolving = beans.resolving := by
  unfold keep
  cases reg.scope <;> rfl

omit [DecidableEq κ] in
@[simp] theorem events_keep (reg : Registration κ) (bean : Bean κ)
    (beans : Beans κ) :
    (keep classes reg bean beans).events = beans.events := by
  unfold keep
  cases reg.scope <;> rfl

@[simp] theorem resolving_leave (cls : TypeExpr κ) (beans : Beans κ) :
    (leave cls beans).resolving = beans.resolving.erase cls := rfl

@[simp] theorem instances_leave (cls : TypeExpr κ) (beans : Beans κ) :
    (leave cls beans).instances = beans.instances := rfl

@[simp] theorem request_leave (cls : TypeExpr κ) (beans : Beans κ) :
    (leave cls beans).request = beans.request := rfl

@[simp] theorem events_leave (cls : TypeExpr κ) (beans : Beans κ) :
    (leave cls beans).events = beans.events ++ [.left cls] := rfl

omit [DecidableEq κ] in
@[simp] theorem resolving_enter (cls : TypeExpr κ) (beans : Beans κ) :
    (enter cls beans).resolving = beans.resolving ++ [cls] := rfl

omit [DecidableEq κ] in
@[simp] theorem instances_enter (cls : TypeExpr κ) (beans : Beans κ) :
    (enter cls beans).instances = beans.instances := rfl

omit [DecidableEq κ] in
@[simp] theorem request_enter (cls : TypeExpr κ) (beans : Beans κ) :
    (enter cls beans).request = beans.request := rfl

omit [DecidableEq κ] in
@[simp] theorem events_enter (cls : TypeExpr κ) (beans : Beans κ) :
    (enter cls beans).events = beans.events ++ [.entered cls] := rfl

/-! ## The classes in creation -/

structure Spares (classes : Classes κ ε) (registry : Registry κ)
    (before after : Beans κ) : Prop where
  resolving : after.resolving = before.resolving
  instances : ∀ reg ∈ registry.all, reg.implType ∈ before.resolving →
    after.instances reg.id = before.instances reg.id
  active : after.request.isSome = before.request.isSome
  attributes : ∀ key, (∀ reg ∈ registry.all, reg.scope = .request →
      cacheKey classes reg = key → reg.implType ∈ before.resolving) →
    after.request.bind (·.get? key) = before.request.bind (·.get? key)

namespace Spares

omit [DecidableEq κ] in
theorem refl (beans : Beans κ) : Spares classes registry beans beans :=
  ⟨rfl, fun _ _ _ => rfl, rfl, fun _ _ => rfl⟩

omit [DecidableEq κ] in
theorem trans {first second third : Beans κ} (hfirst : Spares classes registry first second)
    (hsecond : Spares classes registry second third) :
    Spares classes registry first third where
  resolving := hsecond.resolving.trans hfirst.resolving
  instances reg hreg hmem := by
    rw [hsecond.instances reg hreg (by rwa [hfirst.resolving]),
      hfirst.instances reg hreg hmem]
  active := hsecond.active.trans hfirst.active
  attributes key hkey := by
    rw [hsecond.attributes key (by rwa [hfirst.resolving]),
      hfirst.attributes key hkey]

omit [DecidableEq κ] in
theorem emit (event : Event κ) (beans : Beans κ) :
    Spares classes registry beans (beans.emit event) :=
  ⟨rfl, fun _ _ _ => rfl, rfl, fun _ _ => rfl⟩

omit [DecidableEq κ] in
theorem keep {reg : Registration κ} (hreg : reg ∈ registry.all)
    {beans : Beans κ} (hmem : reg.implType ∉ beans.resolving)
    (bean : Bean κ) :
    Spares classes registry beans (keep classes reg bean beans) where
  resolving := resolving_keep reg bean beans
  instances other hother hother' := by
    unfold Container.keep
    cases reg.scope with
    | transient => rfl
    | request => rfl
    | singleton =>
      have hne : other.id ≠ reg.id := by
        intro hid
        rw [registry.identified other hother reg hreg hid] at hother'
        exact hmem hother'
      exact Function.update_of_ne hne _ _
  active := by
    unfold Container.keep
    cases reg.scope with
    | request => exact Option.isSome_map
    | _ => rfl
  attributes key hkey := by
    unfold Container.keep
    cases hscope : reg.scope with
    | transient => rfl
    | singleton => rfl
    | request =>
      have hne : key ≠ cacheKey classes reg := by
        intro h
        exact hmem (hkey reg hreg hscope h.symm)
      cases beans.request with
      | none => rfl
      | some attributes => exact Dict.get?_set_of_ne hne bean

theorem creation {cls : TypeExpr κ} {beans after : Beans κ} (hmem : cls ∉ beans.resolving)
    (h : Spares classes registry (enter cls beans) after) :
    Spares classes registry beans (leave cls after) where
  resolving := by
    rw [resolving_leave, h.resolving, resolving_enter, List.erase_append_right _ hmem]
    simp
  instances reg hreg hreg' :=
    h.instances reg hreg (List.mem_append_left _ hreg')
  active := h.active
  attributes key hkey := h.attributes key fun reg hreg hscope hreg' =>
    List.mem_append_left _ (hkey reg hreg hscope hreg')

end Spares

/-- A function which leaves the classes in creation alone. -/
def Careful (classes : Classes κ ε) (registry : Registry κ) (resolver : Resolver κ ε) : Prop :=
  ∀ reg ∈ registry.all, ∀ beans reply after,
    resolver reg beans = some (reply, after) → Spares classes registry beans after

theorem spares_answerQuery (hresolver : Careful classes registry resolver)
    {query : Query κ} (hserved : registry.Serves query)
    {reply : Except (Failure κ ε) (TypeExpr κ)}
    (h : answerQuery classes registry resolver owner query beans = some (reply, after)) :
    Spares classes registry beans after := by
  cases query with
  | config cls field =>
    cases h
    exact Spares.refl beans
  | resolve slot key reg =>
    obtain ⟨made, middle, hmade, _, hafter⟩ := answerQuery_resolve_cases h
    have hmiddle := hresolver reg hserved beans made middle hmade
    obtain ⟨bean, _, rfl⟩ | ⟨failure, _, rfl⟩ := hafter
    · exact hmiddle.trans (Spares.emit _ middle)
    · exact hmiddle

theorem spares_perform (hresolver : Careful classes registry resolver)
    {α : Type} {program : Resolving κ ε α}
    (hprogram : Wellformed registry program)
    {final : Except (Failure κ ε) α × Beans κ}
    (h : Coroutine.perform (answerQuery classes registry resolver owner)
      program beans = some final) :
    Spares classes registry beans final.2 :=
  Coroutine.perform_relates (Spares classes registry) Spares.refl
    (fun _ _ _ => Spares.trans)
    (fun _ _ _ _ hserved hanswer =>
      spares_answerQuery hresolver hserved hanswer)
    hprogram.serves h

theorem spares_createInstance (hresolver : Careful classes registry resolver)
    (h : createInstance classes registry resolver reg beans = some (reply, after)) :
    Spares classes registry beans after := by
  obtain ⟨_, _, rfl⟩ | ⟨hmem, result, final, hperform, hend⟩ :=
    createInstance_cases h
  · exact Spares.emit _ beans
  · have hfinal := spares_perform hresolver (Wellformed.creation reg.implType) hperform
    obtain ⟨_, _, rfl⟩ | ⟨_, _, _, rfl⟩ := hend
    · exact Spares.creation hmem (hfinal.trans (Spares.emit _ final))
    · exact Spares.creation hmem hfinal

theorem careful_resolveRegistration (depth : ℕ) : Careful classes registry
      (resolveRegistration classes registry depth) := by
  induction depth with
  | zero =>
    intro reg hreg beans reply after h
    cases h
  | succ depth ih =>
    intro reg hreg beans reply after h
    obtain ⟨bean, _, _, rfl⟩ | ⟨_, _, _, rfl⟩ |
      ⟨_, made, middle, hmade, hend⟩ := resolveRegistration_cases h
    · exact Spares.emit _ beans
    · exact Spares.refl _
    · have hmiddle := spares_createInstance ih hmade
      obtain ⟨bean, rfl, _, rfl⟩ | ⟨_, _, _, rfl⟩ := hend
      · -- a class which is in creation gets no bean
        have hmem : reg.implType ∉ beans.resolving := by
          obtain ⟨_, hreply, _⟩ | ⟨hmem, _⟩ := createInstance_cases hmade
          · cases hreply
          · exact hmem
        rw [← hmiddle.resolving] at hmem
        exact hmiddle.trans ((Spares.keep hreg hmem bean).trans (Spares.emit _ _))
      · exact hmiddle

end Resolution

end PyFly.Container
