import Mathlib.Data.List.Count
import PyFly.ContextLifecycle

/-!
# Calls of a lifecycle

Each loop over the table calls an instance as often as the table holds it.
When everything returns, every bean is called exactly once for each of its
duties exactly when the table holds it once, at the time of every loop.
-/

namespace PyFly.Container

open Library List

variable {κ ε : Type}

/-! ## What a run leaves -/

structure Resolves (app after : ApplicationContext κ) : Prop where
  registry : after.registry = app.registry
  stores : Stores app.beans after.beans
  adapters : after.adapters = app.adapters
  calls : after.calls = app.calls

namespace Resolves

theorem refl (app : ApplicationContext κ) : Resolves app app :=
  ⟨rfl, .refl _, rfl, rfl⟩

theorem trans {first second third : ApplicationContext κ}
    (hfirst : Resolves first second) (hsecond : Resolves second third) :
    Resolves first third :=
  ⟨hsecond.registry.trans hfirst.registry, hfirst.stores.trans hsecond.stores,
    hsecond.adapters.trans hfirst.adapters, hsecond.calls.trans hfirst.calls⟩

variable {app after : ApplicationContext κ} {bean : Bean κ}

theorem holds (h : Resolves app after) (hholds : app.Holds bean) : after.Holds bean := by
  unfold ApplicationContext.Holds
  rw [h.registry]
  exact hholds.stores h.stores

theorem count_of_holds [DecidableEq κ] (h : Resolves app after)
    (hbelow : app.beans.Below) (hholds : app.Holds bean) :
    after.instances.count bean = app.instances.count bean := by
  unfold ApplicationContext.instances
  rw [h.registry]
  exact Registry.count_of_holds h.stores hbelow hholds

theorem count_le_one [DecidableEq κ] (h : Resolves app after)
    (hholds : ¬ app.Holds bean) : after.instances.count bean ≤ 1 := by
  unfold ApplicationContext.instances
  rw [h.registry]
  exact Registry.count_le_one h.stores hholds

end Resolves

section Running

variable [DecidableEq κ] {classes : Classes κ ε} {callbacks : Callbacks κ ε}
variable {app after : ApplicationContext κ} {depth : ℕ}

omit [DecidableEq κ] in
theorem invokeEach_eq_ok {calls : List (LifecycleCall κ)}
    (h : invokeEach callbacks calls app = some (.ok (), after)) :
    after = { app with calls := app.calls ++ calls } := by
  induction calls generalizing app with
  | nil =>
    cases h
    rw [append_nil]
  | cons call calls ih =>
    obtain ⟨middle, hcall, hrest⟩ := Phase.andThen_eq_ok.mp h
    rw [ih hrest]
    unfold invoke at hcall
    obtain ⟨-, rfl⟩ := Prod.ext_iff.mp (Option.some.inj hcall)
    simp

omit [DecidableEq κ] in
theorem attempt_cases {α : Type} {resolution : Option (Except (Failure κ ε) α × Beans κ)}
    {result : Except (Failure κ ε) (Option α)}
    (h : attempt callbacks resolution app = some (result, after)) :
    ∃ resolved beans, resolution = some (resolved, beans) ∧
      after = { app with beans := beans } := by
  obtain ⟨⟨resolved, beans⟩, hresolved, hafter⟩ := Option.map_eq_some_iff.mp h
  exact ⟨resolved, beans, hresolved, (Prod.ext_iff.mp hafter).2.symm⟩

theorem resolves_attemptBean {reg : Registration κ}
    {result : Except (Failure κ ε) (Option (Bean κ))}
    (h : attemptBean classes callbacks depth reg app = some (result, after)) :
    Resolves app after ∧ after.postProcessors = app.postProcessors := by
  obtain ⟨resolved, beans, hresolved, rfl⟩ := attempt_cases h
  exact ⟨⟨rfl, stores_resolveRegistration depth reg _ _ _ hresolved, rfl, rfl⟩, rfl⟩

/-- Post-processors which were found join those which were registered, each of
them of another type. -/
theorem addProcessor_spec (processor : Bean κ) (app : ApplicationContext κ) :
    Resolves app (app.addProcessor processor) ∧
      ((app.addProcessor processor).postProcessors.Nodup ↔ app.postProcessors.Nodup) := by
  unfold ApplicationContext.addProcessor
  split
  · exact ⟨.refl app, Iff.rfl⟩
  · rename_i hnew
    refine ⟨⟨rfl, .refl _, rfl, rfl⟩, ?_⟩
    have hmem : processor ∉ app.postProcessors :=
      fun hmem => hnew (mem_map_of_mem hmem)
    rw [(perm_append_singleton processor _).nodup_iff, nodup_cons]
    exact and_iff_right hmem

theorem discoverEach_spec {entries : List (TypeExpr κ × Registration κ)}
    (h : discoverEach classes callbacks depth entries app = some (.ok (), after)) :
    Resolves app after ∧ (after.postProcessors.Nodup ↔ app.postProcessors.Nodup) := by
  induction entries generalizing app with
  | nil =>
    cases h
    exact ⟨.refl _, Iff.rfl⟩
  | cons entry entries ih =>
    obtain ⟨cls, reg⟩ := entry
    have hadded : ∀ {middle : ApplicationContext κ} {bean : Bean κ},
        Resolves app middle → middle.postProcessors = app.postProcessors →
        discoverEach classes callbacks depth entries
            (middle.addProcessor bean) = some (.ok (), after) →
          Resolves app after ∧ (after.postProcessors.Nodup ↔ app.postProcessors.Nodup) := by
      intro middle bean hmiddle hsame hrest
      obtain ⟨hadd, hnodup⟩ := addProcessor_spec bean middle
      obtain ⟨hafter, hnodup'⟩ := ih hrest
      refine ⟨hmiddle.trans (hadd.trans hafter), ?_⟩
      rw [hnodup', hnodup, hsame]
    rw [discoverEach] at h
    dsimp only at h
    split at h
    · split at h
      · exact hadded (.refl app) rfl h
      · exact ih h
    · split at h
      · split at h
        · cases h
        · rename_i bean middle hattempt
          obtain ⟨hmiddle, hsame⟩ := resolves_attemptBean hattempt
          exact hadded hmiddle hsame h
        · rename_i middle hattempt
          obtain ⟨hmiddle, hsame⟩ := resolves_attemptBean hattempt
          obtain ⟨hafter, hnodup⟩ := ih h
          rw [hsame] at hnodup
          exact ⟨hmiddle.trans hafter, hnodup⟩
        · cases h
      · exact ih h

theorem resolveEach_spec {entries : List (TypeExpr κ × Registration κ)}
    (h : resolveEach classes callbacks depth entries app = some (.ok (), after)) :
    Resolves app after ∧ after.postProcessors = app.postProcessors := by
  induction entries generalizing app with
  | nil =>
    cases h
    exact ⟨.refl _, rfl⟩
  | cons entry entries ih =>
    obtain ⟨cls, reg⟩ := entry
    rw [resolveEach] at h
    dsimp only at h
    split at h
    · split at h
      · cases h
      · rename_i result middle hattempt
        obtain ⟨hmiddle, hsame⟩ := resolves_attemptBean hattempt
        obtain ⟨hafter, hrest⟩ := ih h
        exact ⟨hmiddle.trans hafter, hrest.trans hsame⟩
      · cases h
    · exact ih h

theorem wirePort_spec {isWired : TypeExpr κ → Bean κ → Bool} {port : TypeExpr κ}
    (h : wirePort classes callbacks depth isWired port app = some (.ok (), after)) :
    Resolves app after ∧ after.postProcessors = app.postProcessors := by
  unfold wirePort at h
  split at h
  · obtain ⟨⟨result, middle⟩, hattempt, hdone⟩ := Option.map_eq_some_iff.mp h
    obtain rfl := (Prod.ext_iff.mp hdone).2
    obtain ⟨resolved, beans, hresolved, rfl⟩ := attempt_cases hattempt
    exact ⟨⟨rfl, stores_call (Wellformed.resolve .outermost port) hresolved, rfl, rfl⟩, rfl⟩
  · cases h
    exact ⟨.refl _, rfl⟩

variable {factories : Factories κ ε} {declarations : Declarations κ}
variable {environment : Environment} {discovered : List (TypeExpr κ)}

omit [DecidableEq κ] in
theorem onContext_eq_ok {run : Context κ →
      Option (Except (Failure κ ε) Unit × Context κ)}
    (h : Phase.onContext run app = some (.ok (), after)) :
    ∃ context, run app.toContext = some (.ok (), context) ∧
      after = { app with toContext := context } := by
  obtain ⟨⟨result, context⟩, hrun, hafter⟩ := Option.map_eq_some_iff.mp h
  cases hafter
  exact ⟨context, hrun, rfl⟩

theorem configure_spec
    (h : configure classes depth factories declarations environment discovered
      app = some (.ok (), after)) :
    after.postProcessors = app.postProcessors ∧
      after.adapters = app.adapters ∧ after.calls = app.calls ∧
        (app.beans.Below → after.beans.Below) := by
  obtain ⟨first, hfirst, hrest⟩ := Phase.andThen_eq_ok.mp h
  obtain ⟨second, hsecond, hauto⟩ := Phase.andThen_eq_ok.mp hrest
  obtain ⟨third, hthird, hlast⟩ := Phase.andThen_eq_ok.mp hauto
  cases hfirst
  obtain ⟨user, huser, rfl⟩ := onContext_eq_ok hsecond
  cases hthird
  obtain ⟨auto, hdone, rfl⟩ := onContext_eq_ok hlast
  refine ⟨rfl, rfl, rfl, fun hbelow => ?_⟩
  have hmiddle : user.beans.Below := by
    refine below_processConfigurations ?_ huser
    exact hbelow
  refine below_processConfigurations ?_ hdone
  exact hmiddle

theorem bringUp_spec (h : bringUp classes callbacks depth app = some (.ok (), after)) :
    Resolves { app with
          adapters := app.adapters ++
            app.instances.filter (hasLifecycleMethods callbacks ·.type)
          calls := app.calls ++ (app.adapters ++
            app.instances.filter (hasLifecycleMethods callbacks ·.type)).map
              fun adapter => ⟨adapter, .start, ""⟩ }
        after ∧
      (after.postProcessors.Nodup ↔ app.postProcessors.Nodup) := by
  obtain ⟨first, hfirst, hrest⟩ := Phase.andThen_eq_ok.mp h
  obtain ⟨second, hsecond, hlast⟩ := Phase.andThen_eq_ok.mp hrest
  obtain rfl := invokeEach_eq_ok hfirst
  obtain ⟨hdiscovered, hnodup⟩ := discoverEach_spec hsecond
  obtain ⟨hresolved, hsame⟩ := resolveEach_spec hlast
  refine ⟨hdiscovered.trans hresolved, ?_⟩
  rw [hsame, hnodup]

theorem introduceBeans_spec
    (h : introduceBeans classes callbacks depth app = some (.ok (), after)) :
    ∃ processors, processors.Perm app.postProcessors ∧ Resolves { app with
          calls := app.calls ++
            (app.registry.registrations.values.flatMap fun reg =>
              match app.beans.instances reg.id with
              | none => []
              | some bean =>
                initialCalls classes callbacks processors reg bean) ++
            app.instances.flatMap fun bean =>
              (callbacks.listeners bean.type).map
                fun method => ⟨bean, .subscribe method, ""⟩ }
        after ∧
      after.postProcessors = app.postProcessors := by
  obtain ⟨first, hfirst, hrest⟩ := Phase.andThen_eq_ok.mp h
  obtain ⟨second, hsecond, hports⟩ := Phase.andThen_eq_ok.mp hrest
  obtain ⟨third, hthird, hports'⟩ := Phase.andThen_eq_ok.mp hports
  obtain ⟨fourth, hfourth, hlast⟩ := Phase.andThen_eq_ok.mp hports'
  obtain rfl := invokeEach_eq_ok hfirst
  obtain rfl := invokeEach_eq_ok hsecond
  obtain ⟨hmessages, hsame⟩ := wirePort_spec hthird
  obtain ⟨hhandlers, hsame'⟩ := wirePort_spec hfourth
  obtain ⟨hcommands, hsame''⟩ := wirePort_spec hlast
  refine ⟨_, perm_insertionSort _ _, hmessages.trans (hhandlers.trans hcommands), ?_⟩
  rw [hsame'', hsame', hsame]

omit [DecidableEq κ] in
theorem stop_spec (h : stop callbacks app = some (.ok (), after)) : after = { app with
      calls := app.stoppedCalls ++ (app.rounds callbacks).flatMap fun round =>
          round.2.map fun method => ⟨round.1, .preDestroy method, ""⟩ } := by
  unfold stop at h
  split at h
  · cases h
  · cases h
    rfl

variable (classes callbacks depth factories declarations environment discovered)

/-- A run through the phases in which everything returns. -/
structure LifecycleRun (opened : NewContext κ)
    (configured resolved started final : ApplicationContext κ) : Prop where
  configures : configure classes depth factories declarations environment
    discovered opened.application = some (.ok (), configured)
  bringsUp : bringUp classes callbacks depth configured = some (.ok (), resolved)
  introduces : introduceBeans classes callbacks depth resolved = some (.ok (), started)
  stops : stop callbacks started = some (.ok (), final)

variable {classes callbacks depth factories declarations environment discovered}

theorem lifecycleRun_of_startAndStop {opened : NewContext κ} {final : ApplicationContext κ}
    (h : startAndStop classes callbacks depth factories declarations
      environment discovered opened.application = some (.ok (), final)) :
    ∃ configured resolved started,
      LifecycleRun classes callbacks depth factories declarations environment
        discovered opened configured resolved started final := by
  obtain ⟨started, hstart, hstop⟩ := Phase.andThen_eq_ok.mp h
  obtain ⟨configured, hconfigured, hrest⟩ := Phase.andThen_eq_ok.mp hstart
  obtain ⟨resolved, hresolved, hstarted⟩ := Phase.andThen_eq_ok.mp hrest
  exact ⟨configured, resolved, started, hconfigured, hresolved, hstarted, hstop⟩

end Running

section Counting

variable [DecidableEq κ]

def timesCalled (calls : List (LifecycleCall κ)) (bean : Bean κ) (duty : Duty κ) : ℕ :=
  calls.countP fun call => call.bean = bean ∧ call.duty = duty

@[simp] theorem timesCalled_append (calls calls' : List (LifecycleCall κ))
    (bean : Bean κ) (duty : Duty κ) :
    timesCalled (calls ++ calls') bean duty =
      timesCalled calls bean duty + timesCalled calls' bean duty :=
  countP_append

theorem timesCalled_eq_count (calls : List (LifecycleCall κ)) (bean : Bean κ) (duty : Duty κ) :
    timesCalled calls bean duty =
      (calls.map fun call => (call.bean, call.duty)).count (bean, duty) := by
  rw [count_eq_countP, countP_map]
  apply countP_congr
  simp

theorem timesCalled_of_rounds {calls : List (LifecycleCall κ)}
    {beans : List (Bean κ)} (duties : Bean κ → List (Duty κ))
    (h : calls.map (fun call => (call.bean, call.duty)) =
      beans.flatMap fun bean => (duties bean).map (bean, ·)) (bean : Bean κ)
    (duty : Duty κ) :
    timesCalled calls bean duty = beans.count bean * (duties bean).count duty := by
  rw [timesCalled_eq_count, h]
  clear h
  induction beans with
  | nil => simp
  | cons other beans ih =>
    rw [flatMap_cons, count_append, ih]
    by_cases heq : other = bean
    · subst heq
      rw [count_cons_self, Nat.add_mul, Nat.one_mul, Nat.add_comm,
        count_map_of_injective _ _ (Prod.mk_right_injective other)]
    · rw [count_cons_of_ne heq, count_eq_zero.mpr, Nat.zero_add]
      simp [heq]

variable (callbacks : Callbacks κ ε)

def initialDuties (processors : List (Bean κ)) (type : TypeExpr κ) : List (Duty κ) :=
  processors.map .beforeInit ++ (callbacks.postConstruct type).map .postConstruct ++
    processors.map .afterInit

def duties (processors : List (Bean κ)) (type : TypeExpr κ) : List (Duty κ) :=
  (if hasLifecycleMethods callbacks type then [.start, .stop] else []) ++
    initialDuties callbacks processors type ++
    (callbacks.listeners type).map .subscribe ++
    (callbacks.preDestroy type).map .preDestroy

omit [DecidableEq κ] in
theorem mem_duties_iff {processors : List (Bean κ)} {type : TypeExpr κ} {duty : Duty κ} :
    duty ∈ duties callbacks processors type ↔ (hasLifecycleMethods callbacks type = true ∧
        (duty = .start ∨ duty = .stop)) ∨
      (∃ processor ∈ processors, duty = .beforeInit processor ∨ duty = .afterInit processor) ∨
      (∃ method ∈ callbacks.postConstruct type, duty = .postConstruct method) ∨
      (∃ method ∈ callbacks.listeners type, duty = .subscribe method) ∨
      ∃ method ∈ callbacks.preDestroy type, duty = .preDestroy method := by
  unfold duties
  cases hasLifecycleMethods callbacks type <;> cases duty <;> simp [initialDuties]

def InvokesOnce (app : ApplicationContext κ) : Prop :=
  ∀ bean, app.Holds bean → ∀ duty ∈ duties callbacks app.postProcessors bean.type,
      timesCalled app.calls bean duty = 1

variable {callbacks} {classes : Classes κ ε} {bean : Bean κ} {duty : Duty κ}

theorem timesCalled_each (beans : List (Bean κ)) (made duty : Duty κ) (bean : Bean κ) :
    timesCalled (beans.map fun bean => ⟨bean, made, ""⟩) bean duty =
      if made = duty then beans.count bean else 0 := by
  have hrounds : timesCalled (beans.map fun bean => ⟨bean, made, ""⟩) bean
      duty = beans.count bean * [made].count duty := by
    apply timesCalled_of_rounds fun _ => [made]
    rw [map_map]
    exact map_eq_flatMap
  rw [hrounds, count_singleton]
  split <;> simp_all

theorem timesCalled_initialCalls (processors : List (Bean κ)) (app : ApplicationContext κ) :
    timesCalled (app.registry.registrations.values.flatMap fun reg =>
          match app.beans.instances reg.id with
          | none => []
          | some bean => initialCalls classes callbacks processors reg bean)
        bean duty =
      app.instances.count bean * (initialDuties callbacks processors bean.type).count duty := by
  apply timesCalled_of_rounds fun bean => initialDuties callbacks processors bean.type
  unfold ApplicationContext.instances Registry.instances
  induction app.registry.registrations.values with
  | nil => rfl
  | cons reg regs ih =>
    rw [flatMap_cons, map_append, ih]
    cases hinstance : app.beans.instances reg.id with
    | none => simp [hinstance]
    | some other =>
      simp [hinstance, initialCalls, initialDuties, Function.comp_def]

theorem timesCalled_subscriptions (beans : List (Bean κ)) : timesCalled
        (beans.flatMap fun bean => (callbacks.listeners bean.type).map
          fun method => ⟨bean, .subscribe method, ""⟩) bean duty =
      beans.count bean * ((callbacks.listeners bean.type).map .subscribe).count duty := by
  apply timesCalled_of_rounds fun bean => (callbacks.listeners bean.type).map .subscribe
  simp [map_flatMap, Function.comp_def]

theorem count_flatten_eq_one_iff {methods : List String}
    (hnodup : methods.Nodup) {parts : List (List String)}
    (hparts : ∀ part ∈ parts, part <+: methods) :
    (∀ method ∈ methods, parts.flatten.count method = 1) ↔
      (methods ≠ [] → parts.filter (· ≠ []) = [methods]) := by
  rw [← flatten_filter_ne_nil]
  have hfilled : ∀ part ∈ parts.filter (· ≠ []), part ≠ [] ∧ part <+: methods := by
    intro part hpart
    simp only [mem_filter, decide_eq_true_eq] at hpart
    exact ⟨hpart.2, hparts part hpart.1⟩
  generalize parts.filter (· ≠ []) = filled at hfilled
  constructor
  · intro hcount hne
    obtain ⟨first, rest, rfl⟩ := exists_cons_of_ne_nil hne
    have hfirst : ∀ part ∈ filled, first ∈ part := by
      intro part hpart
      obtain ⟨hpart, tail, htail⟩ := hfilled part hpart
      obtain ⟨head, part, rfl⟩ := exists_cons_of_ne_nil hpart
      rw [cons_append, List.cons.injEq] at htail
      exact htail.1 ▸ mem_cons_self
    match filled with
    | [] => simpa using hcount first mem_cons_self
    | [part] =>
      obtain ⟨-, tail, htail⟩ := hfilled part mem_cons_self
      cases tail with
      | nil => rw [← htail, append_nil]
      | cons method tail =>
        have hmem : method ∈ first :: rest := htail ▸ by simp
        have hone := hcount method hmem
        rw [← htail, nodup_append] at hnodup
        have hnot : method ∉ part := fun hpart =>
          hnodup.2.2 method hpart method mem_cons_self rfl
        simp [count_eq_zero.mpr hnot] at hone
    | part :: other :: rest' =>
      have hone := hcount first mem_cons_self
      have hpart := count_pos_iff.mpr (hfirst part mem_cons_self)
      have hother := count_pos_iff.mpr (hfirst other (mem_cons_of_mem _ mem_cons_self))
      simp only [flatten_cons, count_append] at hone
      omega
  · intro h method hmethod
    rw [h (ne_nil_of_mem hmethod)]
    simpa using count_eq_one_of_mem hnodup hmethod

/-- The `@pre_destroy` methods called in the rounds of one bean. -/
def ApplicationContext.roundsOf (callbacks : Callbacks κ ε) (bean : Bean κ)
    (app : ApplicationContext κ) : List (List String) :=
  ((app.rounds callbacks).filter fun round => round.1 = bean).map Prod.snd

omit [DecidableEq κ] in
theorem destroyRounds_take {beans : List (Bean κ)}
    {made : List (LifecycleCall κ)} {round : Bean κ × List String}
    (h : round ∈ destroyRounds callbacks beans made) :
    round.2 <+: callbacks.preDestroy round.1.type := by
  induction beans generalizing made with
  | nil => cases h
  | cons bean beans ih =>
    rcases mem_cons.mp h with rfl | h
    · exact take_prefix _ _
    · exact ih h

theorem roundsOf_take {app : ApplicationContext κ} {part : List String}
    (h : part ∈ app.roundsOf callbacks bean) :
    part <+: callbacks.preDestroy bean.type := by
  obtain ⟨round, hround, rfl⟩ := mem_map.mp h
  simp only [mem_filter, decide_eq_true_eq] at hround
  rw [← hround.2]
  exact destroyRounds_take hround.1

theorem timesCalled_destroyed (rounds : List (Bean κ × List String)) :
    timesCalled (rounds.flatMap fun round => round.2.map
          fun method => ⟨round.1, .preDestroy method, ""⟩) bean duty =
      (((rounds.filter fun round => round.1 = bean).flatMap
        Prod.snd).map .preDestroy).count duty := by
  rw [timesCalled_eq_count]
  induction rounds with
  | nil => rfl
  | cons round rounds ih =>
    rw [flatMap_cons, map_append, count_append, ih]
    obtain ⟨other, methods⟩ := round
    by_cases heq : other = bean
    · subst heq
      simp only [filter_cons, decide_true, if_true, flatMap_cons,
        map_append, count_append, map_map]
      congr 1
      rw [← count_map_of_injective (methods.map Duty.preDestroy) _
        (Prod.mk_right_injective other), map_map]
      rfl
    · rw [count_eq_zero.mpr (by simp [heq]), Nat.zero_add]
      simp [heq]

end Counting

section Runs

variable [DecidableEq κ] (callbacks : Callbacks κ ε)

def StartsUp (app : ApplicationContext κ) (bean : Bean κ) : Prop :=
  app.postProcessors ≠ [] ∨ callbacks.postConstruct bean.type ≠ [] ∨
    callbacks.listeners bean.type ≠ []

/-- Every bean with something to be called for is the instance of exactly one
registration when it is needed: an adapter, when the infrastructure is started,
any other bean, when the loop over the registrations begins. -/
structure FiledOnce (opened : NewContext κ)
    (configured resolved started : ApplicationContext κ) : Prop where
  processors : ∀ bean, started.Holds bean → opened.postProcessors.Nodup
  made : ∀ bean, configured.Holds bean →
    hasLifecycleMethods callbacks bean.type = true ∨ StartsUp callbacks resolved bean →
      configured.instances.count bean = 1
  created : ∀ bean, resolved.Holds bean → ¬ configured.Holds bean →
    hasLifecycleMethods callbacks bean.type = false ∧
      (StartsUp callbacks resolved bean → bean ∈ resolved.instances)
  wired : ∀ bean, started.Holds bean → ¬ resolved.Holds bean →
    hasLifecycleMethods callbacks bean.type = false ∧ ¬ StartsUp callbacks resolved bean
  destroyed : ∀ bean, started.Holds bean → callbacks.preDestroy bean.type ≠ [] →
      (started.roundsOf callbacks bean).filter (· ≠ []) = [callbacks.preDestroy bean.type]

variable {callbacks} {classes : Classes κ ε} {depth : ℕ}
variable {factories : Factories κ ε} {declarations : Declarations κ}
variable {environment : Environment} {discovered : List (TypeExpr κ)}
variable {opened : NewContext κ}
variable {configured resolved started final : ApplicationContext κ}

theorem holds_of_count {app : ApplicationContext κ} {bean : Bean κ}
    (hcount : app.instances.count bean = 1) : app.Holds bean :=
  Registry.holds_of_mem (count_pos_iff.mp (hcount ▸ one_pos))

namespace LifecycleRun

variable (h : LifecycleRun classes callbacks depth factories declarations
  environment discovered opened configured resolved started final)

include h

theorem resolves : configured.beans.Below ∧ Resolves { configured with
        adapters :=
          configured.instances.filter (hasLifecycleMethods callbacks ·.type)
        calls :=
          (configured.instances.filter
            (hasLifecycleMethods callbacks ·.type)).map
              fun adapter => ⟨adapter, .start, ""⟩ } resolved := by
  obtain ⟨-, hadapters, hcalls, hbelow⟩ := configure_spec h.configures
  have hresolved := (bringUp_spec h.bringsUp).1
  rw [hadapters, hcalls] at hresolved
  exact ⟨hbelow opened.below, hresolved⟩

theorem timesCalled_final :
    ∃ processors : List (Bean κ), processors.Perm resolved.postProcessors ∧
      ∀ bean duty, timesCalled final.calls bean duty =
        (if .start = duty then (configured.instances.filter
          (hasLifecycleMethods callbacks ·.type)).count bean else 0) +
        resolved.instances.count bean *
          (initialDuties callbacks processors bean.type).count duty +
        resolved.instances.count bean *
          ((callbacks.listeners bean.type).map .subscribe).count duty +
        (if .stop = duty then (configured.instances.filter
          (hasLifecycleMethods callbacks ·.type)).count bean else 0) +
        ((started.roundsOf callbacks bean).flatten.map .preDestroy).count duty := by
  obtain ⟨-, hresolved⟩ := h.resolves
  obtain ⟨processors, hperm, hstarted, -⟩ := introduceBeans_spec h.introduces
  refine ⟨processors, hperm, fun bean duty => ?_⟩
  have hadapters := hstarted.adapters.trans hresolved.adapters
  have hcalls := hstarted.calls
  rw [hresolved.calls] at hcalls
  rw [stop_spec h.stops]
  simp only [ApplicationContext.stoppedCalls, hcalls, hadapters, timesCalled_append]
  rw [timesCalled_each, timesCalled_initialCalls, timesCalled_subscriptions,
    timesCalled_each, timesCalled_destroyed, count_reverse]
  rfl

theorem timesCalled_spec (bean : Bean κ) :
    (∀ duty, duty = .start ∨ duty = .stop → timesCalled final.calls bean duty =
        if hasLifecycleMethods callbacks bean.type then
          configured.instances.count bean else 0) ∧
    (∀ processor duty, duty = .beforeInit processor ∨ duty = .afterInit processor →
        timesCalled final.calls bean duty = resolved.instances.count bean *
            resolved.postProcessors.count processor) ∧
    (∀ method, timesCalled final.calls bean (.postConstruct method) =
      resolved.instances.count bean * (callbacks.postConstruct bean.type).count method) ∧
    (∀ method, timesCalled final.calls bean (.subscribe method) =
      resolved.instances.count bean * (callbacks.listeners bean.type).count method) ∧
    ∀ method, timesCalled final.calls bean (.preDestroy method) =
      (started.roundsOf callbacks bean).flatten.count method := by
  obtain ⟨processors, hperm, htimes⟩ := h.timesCalled_final
  have hadapters : (configured.instances.filter
      (hasLifecycleMethods callbacks ·.type)).count bean =
        if hasLifecycleMethods callbacks bean.type then
          configured.instances.count bean else 0 := by
    split
    · rename_i hlifecycle
      exact count_filter hlifecycle
    · rename_i hlifecycle
      rw [count_eq_zero]
      exact fun hmem => hlifecycle (mem_filter.mp hmem).2
  refine ⟨?_, ?_, ?_, ?_, ?_⟩
  · rintro duty (rfl | rfl) <;> simp [htimes, hadapters, initialDuties, count_eq_zero.mpr]
  · rintro processor duty (rfl | rfl)
    · have hcount := count_map_of_injective processors Duty.beforeInit
        (fun _ _ => Duty.beforeInit.inj) processor
      simp [htimes, initialDuties, count_eq_zero.mpr, hcount, hperm.count_eq]
    · have hcount := count_map_of_injective processors Duty.afterInit
        (fun _ _ => Duty.afterInit.inj) processor
      simp [htimes, initialDuties, count_eq_zero.mpr, hcount, hperm.count_eq]
  · intro method
    have hcount := count_map_of_injective
      (callbacks.postConstruct bean.type) (Duty.postConstruct (κ := κ))
      (fun _ _ => Duty.postConstruct.inj) method
    simp [htimes, initialDuties, count_eq_zero.mpr, hcount]
  · intro method
    have hcount := count_map_of_injective
      (callbacks.listeners bean.type) (Duty.subscribe (κ := κ))
      (fun _ _ => Duty.subscribe.inj) method
    simp [htimes, initialDuties, count_eq_zero.mpr, hcount]
  · intro method
    have hcount := count_map_of_injective
      (started.roundsOf callbacks bean).flatten (Duty.preDestroy (κ := κ))
      (fun _ _ => Duty.preDestroy.inj) method
    rw [htimes, hcount]
    simp [initialDuties, count_eq_zero.mpr]

theorem started_frame : started.registry = resolved.registry ∧
      Stores resolved.beans started.beans ∧
      final.postProcessors = resolved.postProcessors ∧
        ∀ bean, final.Holds bean ↔ started.Holds bean := by
  obtain ⟨processors, -, hstarted, hsame⟩ := introduceBeans_spec h.introduces
  rw [stop_spec h.stops]
  exact ⟨hstarted.registry, hstarted.stores, hsame, fun _ => Iff.rfl⟩

theorem invokesOnce_iff_counts : InvokesOnce callbacks final ↔ ∀ bean, started.Holds bean →
      (hasLifecycleMethods callbacks bean.type = true → configured.instances.count bean = 1) ∧
      (StartsUp callbacks resolved bean → resolved.instances.count bean = 1) ∧
      resolved.postProcessors.Nodup ∧
      (callbacks.preDestroy bean.type ≠ [] → (started.roundsOf callbacks bean).filter (· ≠ []) =
          [callbacks.preDestroy bean.type]) := by
  obtain ⟨-, -, hprocessors, hholds⟩ := h.started_frame
  refine forall_congr' fun bean => imp_congr (hholds bean) ?_
  obtain ⟨hends, hprocessed, hconstructed, hsubscribed, hdestroyed⟩ :=
    h.timesCalled_spec bean
  simp only [mem_duties_iff, hprocessors]
  constructor
  · intro hall
    refine ⟨?_, ?_, nodup_iff_count_eq_one.mpr ?_, ?_⟩
    · intro hlifecycle
      have hstart := hall .start (.inl ⟨hlifecycle, .inl rfl⟩)
      rwa [hends .start (.inl rfl), if_pos hlifecycle] at hstart
    · rintro (hsome | hsome | hsome)
      · obtain ⟨processor, hmem⟩ := exists_mem_of_ne_nil _ hsome
        have hinit := hall (.beforeInit processor) (.inr (.inl ⟨processor, hmem, .inl rfl⟩))
        rw [hprocessed processor _ (.inl rfl)] at hinit
        exact Nat.eq_one_of_mul_eq_one_right hinit
      · obtain ⟨method, hmem⟩ := exists_mem_of_ne_nil _ hsome
        have hconstruct := hall (.postConstruct method) (.inr (.inr (.inl ⟨method, hmem, rfl⟩)))
        rw [hconstructed method] at hconstruct
        exact Nat.eq_one_of_mul_eq_one_right hconstruct
      · obtain ⟨method, hmem⟩ := exists_mem_of_ne_nil _ hsome
        have hsubscribe := hall (.subscribe method)
          (.inr (.inr (.inr (.inl ⟨method, hmem, rfl⟩))))
        rw [hsubscribed method] at hsubscribe
        exact Nat.eq_one_of_mul_eq_one_right hsubscribe
    · intro processor hmem
      have hinit := hall (.beforeInit processor) (.inr (.inl ⟨processor, hmem, .inl rfl⟩))
      rw [hprocessed processor _ (.inl rfl)] at hinit
      exact Nat.eq_one_of_mul_eq_one_left hinit
    · apply (count_flatten_eq_one_iff (callbacks.nodup_preDestroy _) fun _ => roundsOf_take).mp
      intro method hmem
      rw [← hdestroyed method]
      exact hall _ (.inr (.inr (.inr (.inr ⟨method, hmem, rfl⟩))))
  · rintro ⟨hlifecycle, hstarts, hnodup, hdestroys⟩ duty hduty
    obtain ⟨hadapter, hduty⟩ | ⟨processor, hmem, hduty⟩ |
      ⟨method, hmem, rfl⟩ | ⟨method, hmem, rfl⟩ | ⟨method, hmem, rfl⟩ := hduty
    · rw [hends duty hduty, if_pos hadapter, hlifecycle hadapter]
    · rw [hprocessed processor duty hduty, hstarts (.inl (ne_nil_of_mem hmem)),
        count_eq_one_of_mem hnodup hmem]
    · rw [hconstructed method, hstarts (.inr (.inl (ne_nil_of_mem hmem))),
        count_eq_one_of_mem (callbacks.nodup_postConstruct _) hmem]
    · rw [hsubscribed method, hstarts (.inr (.inr (ne_nil_of_mem hmem))),
        count_eq_one_of_mem (callbacks.nodup_listeners _) hmem]
    · rw [hdestroyed method]
      exact (count_flatten_eq_one_iff (callbacks.nodup_preDestroy _)
        fun _ => roundsOf_take).mpr hdestroys method hmem

theorem nodup_processors_iff : resolved.postProcessors.Nodup ↔ opened.postProcessors.Nodup := by
  obtain ⟨hsame, -⟩ := configure_spec h.configures
  rw [(bringUp_spec h.bringsUp).2, hsame]
  rfl

theorem invokesOnce_iff_filedOnce : InvokesOnce callbacks final ↔
      FiledOnce callbacks opened configured resolved started := by
  obtain ⟨hbelow, hresolves⟩ := h.resolves
  obtain ⟨hregistry, hstores, -, -⟩ := h.started_frame
  have hresolved : ∀ bean, configured.Holds bean → resolved.Holds bean :=
    fun bean hbean => hresolves.holds hbean
  have hstarted : ∀ bean, resolved.Holds bean → started.Holds bean := by
    intro bean hbean
    unfold ApplicationContext.Holds
    rw [hregistry]
    exact hbean.stores hstores
  rw [h.invokesOnce_iff_counts]
  constructor
  · intro hall
    refine ⟨?_, ?_, ?_, ?_, ?_⟩
    · exact fun bean hbean =>
        h.nodup_processors_iff.mp (hall bean hbean).2.2.1
    · rintro bean hbean (hlifecycle | hstarts)
      · exact (hall bean (hstarted bean (hresolved bean hbean))).1 hlifecycle
      · rw [← (hall bean (hstarted bean (hresolved bean hbean))).2.1 hstarts]
        exact (hresolves.count_of_holds hbelow hbean).symm
    · intro bean hbean hnew
      obtain ⟨hadapter, hstarts, -⟩ := hall bean (hstarted bean hbean)
      constructor
      · rw [Bool.eq_false_iff]
        exact fun hlifecycle => hnew (holds_of_count (hadapter hlifecycle))
      · intro hneeded
        exact count_pos_iff.mp (by rw [hstarts hneeded]; exact one_pos)
    · intro bean hbean hnew
      obtain ⟨hadapter, hstarts, -⟩ := hall bean hbean
      constructor
      · rw [Bool.eq_false_iff]
        exact fun hlifecycle =>
          hnew (hresolved bean (holds_of_count (hadapter hlifecycle)))
      · exact fun hneeded => hnew (holds_of_count (hstarts hneeded))
    · exact fun bean hbean => (hall bean hbean).2.2.2
  · intro hfiled bean hbean
    refine ⟨?_, ?_, h.nodup_processors_iff.mpr (hfiled.processors bean hbean),
      hfiled.destroyed bean hbean⟩
    · intro hlifecycle
      by_cases hmade : configured.Holds bean
      · exact hfiled.made bean hmade (.inl hlifecycle)
      · by_cases hold : resolved.Holds bean
        · rw [(hfiled.created bean hold hmade).1] at hlifecycle
          cases hlifecycle
        · rw [(hfiled.wired bean hbean hold).1] at hlifecycle
          cases hlifecycle
    · intro hneeded
      by_cases hmade : configured.Holds bean
      · rw [← hfiled.made bean hmade (.inr hneeded)]
        exact hresolves.count_of_holds hbelow hmade
      · by_cases hold : resolved.Holds bean
        · have hmem := (hfiled.created bean hold hmade).2 hneeded
          have hpos := count_pos_iff.mpr hmem
          have hle : resolved.instances.count bean ≤ 1 :=
            hresolves.count_le_one hmade
          omega
        · exact absurd hneeded (hfiled.wired bean hbean hold).2

end LifecycleRun

end Runs

namespace StorePort

def classes : Classes String Empty := Classes.plain (fun _ => []) fun _ => []

def declarations : Declarations String where
  profile _ := []
  condition _ := none
  conditions _ := []
  property _ := none
  lower text := text
  importable _ := false
  issubclass _ _ := some false

def factories : Factories String Empty where
  isConfiguration cls := cls = .cls "StoreConfig"
  isAuto _ := false
  methods _ :=
    [{ attrName := "store"
       functionName := "store"
       returnType := some (.cls "StorePort")
       parameters := []
       conditions := [] }]
  make _ _ _ := .ok (.cls "MemoryStore")

def callbacks : Callbacks String Empty where
  defines _ _ := false
  isPostProcessor _ := false
  order _ := 0
  postConstruct type := if type = .cls "MemoryStore" then ["connect"] else []
  listeners _ := []
  preDestroy _ := []
  nodup_postConstruct type := by split <;> simp
  nodup_listeners _ := nodup_nil
  nodup_preDestroy _ := nodup_nil
  hasMessageListener _ := false
  messageBroker := .cls "MessageBrokerPort"
  isHandler _ := false
  handlerRegistry := .cls "HandlerRegistry"
  isShellComponent _ := false
  shellRunner := .cls "ShellRunnerPort"
  isBeanCreation _ := false
  raises _ _ := none
  timeoutError := none
  called _ _ := 1

def opened : NewContext String where
  registry := register classes (.cls "StoreConfig") .singleton "" Registry.empty
  beans := Beans.initial none
  postProcessors := []
  below := nofun

def run : Option (Except (Failure String Empty) Unit × ApplicationContext String) :=
  startAndStop classes callbacks 2 factories declarations ⟨[], fun _ => false⟩
    [] opened.application

end StorePort

/-- The run ends, and leaves the store with two calls of `connect`. -/
theorem StorePort.exists_run : ∃ final, StorePort.run = some (.ok (), final) ∧
      final.Holds ⟨1, .cls "MemoryStore"⟩ ∧
      timesCalled final.calls ⟨1, .cls "MemoryStore"⟩ (.postConstruct "connect") = 2 := by
  have hcheck : StorePort.run.any (fun outcome =>
      outcome.1.isOk && (outcome.2.registry.all.map fun reg =>
        outcome.2.beans.instances reg.id).contains (some ⟨1, .cls "MemoryStore"⟩) &&
      timesCalled outcome.2.calls ⟨1, .cls "MemoryStore"⟩
        (.postConstruct "connect") == 2) = true := by
    decide +kernel
  obtain ⟨⟨reply, final⟩, hrun, hfacts⟩ := (Option.any_eq_true _ _).mp hcheck
  rw [Bool.and_eq_true, Bool.and_eq_true, contains_iff_mem, beq_iff_eq] at hfacts
  obtain ⟨⟨hreply, hheld⟩, htwice⟩ := hfacts
  cases reply with
  | error => cases hreply
  | ok =>
    obtain ⟨reg, hreg, hbean⟩ := mem_map.mp hheld
    exact ⟨final, hrun, ⟨reg, hreg, hbean⟩, htwice⟩

end PyFly.Container
