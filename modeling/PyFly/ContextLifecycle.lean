import Mathlib.Data.List.Sort
import PyFly.HeldBeans

/-!
# The lifecycle of a context

After the configurations were processed `start()` calls the beans in the table
of the registrations: those with a lifecycle of their own, then all of them for
the post-processors, their `@post_construct` methods and their event listeners.
`stop()` calls them once more.
-/

namespace PyFly.Container

open Library

variable {κ ε : Type}

inductive Duty (κ : Type)
  | start
  | stop
  | beforeInit (processor : Bean κ)
  | postConstruct (method : String)
  | afterInit (processor : Bean κ)
  | subscribe (method : String)
  | preDestroy (method : String)
  deriving DecidableEq, Repr

structure LifecycleCall (κ : Type) where
  bean : Bean κ
  duty : Duty κ
  beanName : String := ""
  deriving DecidableEq, Repr

structure Callbacks (κ ε : Type) where
  /-- Some class of the MRO has the attribute. -/
  defines : TypeExpr κ → String → Bool
  isPostProcessor : TypeExpr κ → Bool
  /-- `get_order` -/
  order : TypeExpr κ → ℤ
  postConstruct : TypeExpr κ → List String
  listeners : TypeExpr κ → List String
  preDestroy : TypeExpr κ → List String
  nodup_postConstruct : ∀ type, (postConstruct type).Nodup
  nodup_listeners : ∀ type, (listeners type).Nodup
  nodup_preDestroy : ∀ type, (preDestroy type).Nodup
  hasMessageListener : TypeExpr κ → Bool
  messageBroker : TypeExpr κ
  /-- `__pyfly_handler_type__` is set. -/
  isHandler : TypeExpr κ → Bool
  handlerRegistry : TypeExpr κ
  /-- `__pyfly_stereotype__` is `"shell_component"`. -/
  isShellComponent : TypeExpr κ → Bool
  shellRunner : TypeExpr κ
  /-- `isinstance(exc, BeanCreationException)` -/
  isBeanCreation : ε → Bool
  raises : List (LifecycleCall κ) → LifecycleCall κ → Option ε
  /-- What `float` raises on the configured timeout. -/
  timeoutError : Option ε
  called : List (LifecycleCall κ) → Bean κ → ℕ

structure ApplicationContext (κ : Type) extends Context κ where
  postProcessors : List (Bean κ)
  adapters : List (Bean κ)
  calls : List (LifecycleCall κ)

/-- A context with its registered classes, before `start()`. -/
structure NewContext (κ : Type) extends Context κ where
  postProcessors : List (Bean κ)
  below : beans.Below

def NewContext.application (opened : NewContext κ) : ApplicationContext κ where
  toContext := opened.toContext
  postProcessors := opened.postProcessors
  adapters := []
  calls := []

namespace ApplicationContext

def instances (app : ApplicationContext κ) : List (Bean κ) :=
  app.registry.instances app.beans

def Holds (app : ApplicationContext κ) (bean : Bean κ) : Prop :=
  app.registry.Holds app.beans bean

end ApplicationContext

/-! ## Phases -/

/-- A part of `start()` or `stop()`. -/
abbrev Phase (κ ε : Type) :=
  ApplicationContext κ → Option (Except (Failure κ ε) Unit × ApplicationContext κ)

namespace Phase

def andThen (first second : Phase κ ε) : Phase κ ε := fun app =>
  match first app with
  | some (.ok _, after) => second after
  | other => other

theorem andThen_eq_ok {first second : Phase κ ε} {app final : ApplicationContext κ} :
    first.andThen second app = some (.ok (), final) ↔
      ∃ middle, first app = some (.ok (), middle) ∧ second middle = some (.ok (), final) := by
  unfold andThen
  split
  · rename_i after hfirst
    simp [hfirst]
  · rename_i hother
    refine ⟨fun h => (hother () final h).elim, ?_⟩
    rintro ⟨middle, hfirst, -⟩
    exact (hother () middle hfirst).elim

def onRegistry (f : Registry κ → Registry κ) : Phase κ ε := fun app =>
  some (.ok (), { app with registry := f app.registry })

def onContext (run : Context κ →
    Option (Except (Failure κ ε) Unit × Context κ)) : Phase κ ε := fun app =>
  (run app.toContext).map fun done => (done.1, { app with toContext := done.2 })

end Phase

section Lifecycle

variable [DecidableEq κ] (classes : Classes κ ε) (callbacks : Callbacks κ ε)

/-! ## Starting -/

def invoke (call : LifecycleCall κ) : Phase κ ε := fun app =>
  some (match callbacks.raises app.calls call with
      | none => .ok ()
      | some error => .error (.other error),
    { app with calls := app.calls ++ [call] })

def invokeEach : List (LifecycleCall κ) → Phase κ ε
  | [] => fun app => some (.ok (), app)
  | call :: calls => (invoke callbacks call).andThen (invokeEach calls)

def hasLifecycleMethods (type : TypeExpr κ) : Bool :=
  ["start", "stop"].all (callbacks.defines type)

def startInfrastructure : Phase κ ε := fun app =>
  let adapters := app.adapters ++
    app.instances.filter (hasLifecycleMethods callbacks ·.type)
  invokeEach callbacks (adapters.map fun adapter => ⟨adapter, .start, ""⟩)
    { app with adapters := adapters }

def isBeanCreation : Failure κ ε → Bool
  | .noSuchBean _ | .noUniqueBean _ _ | .currentlyInCreation _ _ => true
  | .keyError _ | .runtimeError _ => false
  | .other error => callbacks.isBeanCreation error

def attempt {α : Type} (resolution : Option (Except (Failure κ ε) α × Beans κ))
    (app : ApplicationContext κ) :
    Option (Except (Failure κ ε) (Option α) × ApplicationContext κ) :=
  resolution.map fun resolved =>
    (match resolved.1 with
      | .ok value => .ok (some value)
      | .error failure =>
        if isBeanCreation callbacks failure then .ok none
        else .error failure,
    { app with beans := resolved.2 })

variable (depth : ℕ)

/-- `resolve` of a registered class. -/
def attemptBean (reg : Registration κ) (app : ApplicationContext κ) :
    Option (Except (Failure κ ε) (Option (Bean κ)) × ApplicationContext κ) :=
  attempt callbacks (resolveRegistration classes app.registry depth reg app.beans) app

def ApplicationContext.addProcessor (processor : Bean κ)
    (app : ApplicationContext κ) : ApplicationContext κ :=
  if processor.type ∈ app.postProcessors.map Bean.type then app
  else { app with postProcessors := app.postProcessors ++ [processor] }

def discoverEach : List (TypeExpr κ × Registration κ) → Phase κ ε
  | [] => fun app => some (.ok (), app)
  | (cls, reg) :: entries => fun app =>
    match app.beans.instances reg.id with
    | some bean =>
      if callbacks.isPostProcessor bean.type then
        discoverEach entries (app.addProcessor bean)
      else discoverEach entries app
    | none =>
      if classes.isType cls ∧ callbacks.isPostProcessor cls ∧
          cls ∉ app.postProcessors.map Bean.type then
        match attemptBean classes callbacks depth reg app with
        | none => none
        | some (.ok (some bean), after) =>
          discoverEach entries (after.addProcessor bean)
        | some (.ok none, after) => discoverEach entries after
        | some (.error failure, after) => some (.error failure, after)
      else discoverEach entries app

def discoverPostProcessors : Phase κ ε := fun app =>
  discoverEach classes callbacks depth app.registry.registrations.items app

def resolveEach : List (TypeExpr κ × Registration κ) → Phase κ ε
  | [] => fun app => some (.ok (), app)
  | (_, reg) :: entries => fun app =>
    if reg.scope = .singleton ∧ app.beans.instances reg.id = none then
      match attemptBean classes callbacks depth reg app with
      | none => none
      | some (.ok _, after) => resolveEach entries after
      | some (.error failure, after) => some (.error failure, after)
    else resolveEach entries app

def resolveSingletons : Phase κ ε := fun app =>
  resolveEach classes callbacks depth
    (app.registry.registrations.items.insertionSort fun entry other =>
      callbacks.order entry.1 ≤ callbacks.order other.1)
    app

def initialCalls (processors : List (Bean κ)) (reg : Registration κ)
    (bean : Bean κ) : List (LifecycleCall κ) :=
  let beanName :=
    if reg.name = "" then classes.typeName reg.implType else reg.name
  processors.map (fun processor => ⟨bean, .beforeInit processor, beanName⟩) ++
    (callbacks.postConstruct bean.type).map
      (fun method => ⟨bean, .postConstruct method, ""⟩) ++
    processors.map fun processor => ⟨bean, .afterInit processor, beanName⟩

def initializeBeans : Phase κ ε := fun app =>
  let processors := app.postProcessors.insertionSort fun processor other =>
    callbacks.order processor.type ≤ callbacks.order other.type
  invokeEach callbacks (app.registry.registrations.values.flatMap fun reg =>
      match app.beans.instances reg.id with
      | none => []
      | some bean => initialCalls classes callbacks processors reg bean)
    app

def wireAppEventListeners : Phase κ ε := fun app =>
  invokeEach callbacks (app.instances.flatMap fun bean =>
      (callbacks.listeners bean.type).map fun method => ⟨bean, .subscribe method, ""⟩)
    app

def wirePort (isWired : TypeExpr κ → Bean κ → Bool) (port : TypeExpr κ) :
    Phase κ ε := fun app =>
  if app.registry.registrations.items.any fun entry =>
      (app.beans.instances entry.2.id).any (isWired entry.1) then
    (attempt callbacks (call classes app.registry depth
        (resolve classes app.registry .outermost port) app.beans) app).map
      fun attempted => (attempted.1.map fun _ => (), attempted.2)
  else some (.ok (), app)

def wireMessageListeners : Phase κ ε :=
  wirePort classes callbacks depth
    (fun _ bean => callbacks.hasMessageListener bean.type)
    callbacks.messageBroker

def wireCqrsHandlers : Phase κ ε :=
  wirePort classes callbacks depth (fun cls _ => callbacks.isHandler cls)
    callbacks.handlerRegistry

def wireShellCommands : Phase κ ε :=
  wirePort classes callbacks depth
    (fun cls _ => callbacks.isShellComponent cls) callbacks.shellRunner

variable (factories : Factories κ ε) (declarations : Declarations κ)
variable (environment : Environment) (discovered : List (TypeExpr κ))

def registerAutoConfigurations (registry : Registry κ) : Registry κ :=
  discovered.foldl
    (fun registry cls =>
      if cls ∈ registry.registrations.keys then registry
      else register classes cls .singleton "" registry)
    registry

def configure : Phase κ ε :=
  (Phase.onRegistry fun registry =>
    evaluateConditions declarations (filterByProfile declarations environment
        (registerAutoConfigurations classes discovered registry))).andThen <|
  (Phase.onContext (processConfigurations classes factories declarations depth
      false)).andThen <|
  (Phase.onRegistry (evaluateBeanConditions declarations)).andThen <|
  Phase.onContext (processConfigurations classes factories declarations depth true)

def bringUp : Phase κ ε :=
  (startInfrastructure callbacks).andThen <|
  (discoverPostProcessors classes callbacks depth).andThen <|
  resolveSingletons classes callbacks depth

def introduceBeans : Phase κ ε :=
  (initializeBeans classes callbacks).andThen <|
  (wireAppEventListeners callbacks).andThen <|
  (wireMessageListeners classes callbacks depth).andThen <|
  (wireCqrsHandlers classes callbacks depth).andThen <|
  wireShellCommands classes callbacks depth

def start : Phase κ ε :=
  (configure classes depth factories declarations environment discovered).andThen <|
  (bringUp classes callbacks depth).andThen <|
  introduceBeans classes callbacks depth

/-! ## Stopping -/

def destroyRounds : List (Bean κ) → List (LifecycleCall κ) → List (Bean κ × List String)
  | [], _ => []
  | bean :: beans, made =>
    let methods :=
      (callbacks.preDestroy bean.type).take (callbacks.called made bean)
    (bean, methods) :: destroyRounds beans
      (made ++ methods.map fun method => ⟨bean, .preDestroy method, ""⟩)

namespace ApplicationContext

def stoppedCalls (app : ApplicationContext κ) : List (LifecycleCall κ) :=
  app.calls ++ app.adapters.reverse.map fun adapter => ⟨adapter, .stop, ""⟩

def rounds (app : ApplicationContext κ) : List (Bean κ × List String) :=
  destroyRounds callbacks app.instances.reverse app.stoppedCalls

end ApplicationContext

def stop : Phase κ ε := fun app =>
  match callbacks.timeoutError with
  | some error => some (.error (.other error), app)
  | none =>
    some (.ok (), { app with
      calls := app.stoppedCalls ++ (app.rounds callbacks).flatMap fun round =>
          round.2.map fun method => ⟨round.1, .preDestroy method, ""⟩ })

def startAndStop : Phase κ ε :=
  (start classes callbacks depth factories declarations environment
    discovered).andThen (stop callbacks)

end Lifecycle

end PyFly.Container
