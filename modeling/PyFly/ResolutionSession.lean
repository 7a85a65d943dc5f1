import PyFly.ResolutionAgreement

/-!
# Sessions of a container

A session is a sequence of outermost calls.  Every call ends; it reports a
circular dependency exactly when it has entered a class which was in creation;
a registration of singleton scope is created once and every resolution of it
returns that bean; and the outcome of a call does not depend on the calls
before it, failed or not.
-/

namespace PyFly.Container

open Library List

variable {κ ε : Type} [DecidableEq κ]
variable (classes : Classes κ ε) (registry : Registry κ)

inductive Call (κ : Type)
  | resolve (type : TypeExpr κ)
  | resolveByName (name : String)
  | resolveAll (type : TypeExpr κ)
  deriving DecidableEq, Repr

def Call.program : Call κ → Resolving κ ε (List (TypeExpr κ))
  | .resolve type => do
      return [← Container.resolve classes registry .outermost type]
  | .resolveByName name => do
      return [← Container.resolveByName registry .outermost name]
  | .resolveAll type => Container.resolveAll registry .outermost type

/-- The types of the beans a call returns, or its exception. -/
abbrev Outcome (κ ε : Type) := Except (Failure κ ε) (List (TypeExpr κ))

def session (depth : ℕ) : List (Call κ) → Beans κ →
    Option (List (Outcome κ ε × List (Event κ)) × Beans κ)
  | [], beans => some ([], beans)
  | first :: rest, beans =>
    (call classes registry depth (first.program classes registry) beans).bind fun answered =>
        (session depth rest answered.2).map fun results =>
          ((answered.1, answered.2.events.drop beans.events.length) :: results.1, results.2)

def inCreation : List (TypeExpr κ) → List (Event κ) → Option (List (TypeExpr κ))
  | path, [] => some path
  | path, .entered cls :: events =>
    if cls ∈ path then none else inCreation (path ++ [cls]) events
  | path, .left cls :: events => inCreation (path.erase cls) events
  | path, _ :: events => inCreation path events

def creations (reg : ℕ) (events : List (Event κ)) : List (Bean κ) :=
  events.filterMap fun
    | .created id bean => if id = reg then some bean else none
    | _ => none

def returns (reg : ℕ) (events : List (Event κ)) : List (Bean κ) :=
  events.filterMap fun
    | .returned id bean => if id = reg then some bean else none
    | _ => none

def CreatedOnce (events : List (Event κ)) : Prop :=
  ∀ reg ∈ registry.all, reg.scope = .singleton →
    (creations reg.id events).length ≤ 1 ∧ ∀ bean ∈ returns reg.id events,
        (∀ other ∈ returns reg.id events, other = bean) ∧
          ∀ made ∈ creations reg.id events, made = bean

variable {classes registry}

theorem Call.wellformed (request : Call κ) :
    Wellformed registry (request.program classes registry) := by
  cases request with
  | resolve type =>
    exact (Wellformed.resolve .outermost type).bind fun _ =>
      Wellformed.pure _
  | resolveByName name =>
    exact (Wellformed.resolveByName .outermost name).bind fun _ =>
      Wellformed.pure _
  | resolveAll type => exact Wellformed.resolveImpls .outermost _

/-! ## Every call ends -/

def Registry.room (registry : Registry κ) (path : List (TypeExpr κ)) : ℕ :=
  registry.implTypes.countP (· ∉ path)

variable {reg : Registration κ}

theorem Registry.room_lt (hreg : reg ∈ registry.all) {path : List (TypeExpr κ)}
    (hmem : reg.implType ∉ path) :
    registry.room (path ++ [reg.implType]) < registry.room path := by
  have himpl : reg.implType ∈ registry.implTypes :=
    mem_map.mpr ⟨reg, hreg, rfl⟩
  unfold Registry.room
  rw [countP_eq_length_filter, countP_eq_length_filter]
  have hsub : registry.implTypes.filter (· ∉ path ++ [reg.implType]) =
      (registry.implTypes.filter (· ∉ path)).filter (· ≠ reg.implType) := by
    rw [filter_filter]
    congr 1
    funext cls
    simp [and_comm]
  rw [hsub]
  refine length_filter_lt_length_iff_exists.mpr
    ⟨reg.implType, mem_filter.mpr ⟨himpl, by simpa using hmem⟩, ?_⟩
  simp

variable {resolver : Resolver κ ε} {owner : Option ℕ} {α : Type} {beans : Beans κ}

theorem perform_ends (hcareful : Careful classes registry resolver)
    {path : List (TypeExpr κ)} (hends : ∀ reg ∈ registry.all, ∀ beans : Beans κ,
      beans.resolving = path → resolver reg beans ≠ none)
    {program : Resolving κ ε α} (hprogram : Wellformed registry program)
    (hpath : beans.resolving = path) :
    ∃ final, Coroutine.perform (answerQuery classes registry resolver owner)
      program beans = some final := by
  have hanswer : ∀ query (beans : Beans κ), registry.Serves query →
      beans.resolving = path → ∃ reply next,
        answerQuery classes registry resolver owner query beans =
          some (reply, next) ∧ next.resolving = path := by
    intro query beans hserved hbeans
    have hsome : ∃ answered, answerQuery classes registry resolver owner
        query beans = some answered := by
      cases query with
      | config cls field => exact ⟨_, rfl⟩
      | resolve slot key reg =>
        obtain ⟨answered, hanswered⟩ :=
          Option.ne_none_iff_exists'.mp (hends reg hserved beans hbeans)
        exact ⟨_, answerQuery_resolve_of_some hanswered owner slot key⟩
    obtain ⟨⟨reply, next⟩, hreply⟩ := hsome
    have hspares := spares_answerQuery hcareful hserved hreply
    exact ⟨reply, next, hreply, hspares.resolving.trans hbeans⟩
  exact Coroutine.perform_isSome hanswer hprogram.serves hpath

theorem resolveRegistration_ends (depth : ℕ) (reg : Registration κ)
    (hreg : reg ∈ registry.all) (beans : Beans κ)
    (hroom : registry.room beans.resolving < depth) :
    resolveRegistration classes registry depth reg beans ≠ none := by
  induction depth generalizing reg beans with
  | zero => exact absurd hroom (Nat.not_lt_zero _)
  | succ depth ih =>
    cases hheld : (held classes beans reg : Option (Except (Failure κ ε) (Bean κ))) with
    | some answer =>
      obtain ⟨after, hafter⟩ :=
        @resolveRegistration_of_held _ _ _ classes registry _ _ _ hheld
      rw [hafter]
      exact Option.some_ne_none _
    | none =>
      rw [resolveRegistration_of_none hheld]
      by_cases hmem : reg.implType ∈ beans.resolving
      · rw [createInstance_of_mem hmem]
        exact Option.some_ne_none _
      · rw [createInstance_of_not_mem hmem]
        have hless := registry.room_lt hreg hmem
        have hends : ∀ other ∈ registry.all, ∀ nested : Beans κ,
            nested.resolving = beans.resolving ++ [reg.implType] →
              resolveRegistration classes registry depth other nested ≠
                none := by
          intro other hother nested hnested
          refine ih other hother nested ?_
          rw [hnested]
          omega
        obtain ⟨final, hfinal⟩ := perform_ends (careful_resolveRegistration depth) hends
          (Wellformed.creation reg.implType)
          (resolving_enter reg.implType beans)
        rw [hfinal]
        exact Option.some_ne_none _

theorem call_ends {α : Type} {program : Resolving κ ε α}
    (hprogram : Wellformed registry program) {beans : Beans κ}
    (hidle : beans.resolving = []) {depth : ℕ}
    (hdepth : registry.depth ≤ depth) :
    ∃ final, call classes registry depth program beans = some final := by
  refine perform_ends (careful_resolveRegistration depth) ?_ hprogram hidle
  intro reg hreg nested hnested
  refine resolveRegistration_ends depth reg hreg nested ?_
  have hle : registry.room nested.resolving ≤ registry.implTypes.length :=
    countP_le_length
  unfold Registry.depth at hdepth
  omega

variable {final : Except (Failure κ ε) α × Beans κ}

theorem perform_more {resolver' : Resolver κ ε}
    (hmore : ∀ reg beans answered, resolver reg beans = some answered →
      resolver' reg beans = some answered) {program : Resolving κ ε α}
    (hprogram : Wellformed registry program)
    (h : Coroutine.perform (answerQuery classes registry resolver owner)
      program beans = some final) :
    Coroutine.perform (answerQuery classes registry resolver' owner)
      program beans = some final := by
  have hanswer : ∀ query beans answered, registry.Serves query →
      answerQuery classes registry resolver owner query beans = some answered →
      answerQuery classes registry resolver' owner query beans = some answered := by
    intro query beans answered _ hanswer
    cases query with
    | config cls field => exact hanswer
    | resolve slot key reg =>
      obtain ⟨made, hmade, rfl⟩ := Option.map_eq_some_iff.mp hanswer
      exact answerQuery_resolve_of_some (hmore reg beans made hmade) owner slot key
  exact Coroutine.perform_mono hanswer hprogram.serves h

theorem resolveRegistration_succ (depth : ℕ) (reg : Registration κ)
    (beans : Beans κ) (answered : Except (Failure κ ε) (Bean κ) × Beans κ)
    (h : resolveRegistration classes registry depth reg beans = some answered) :
    resolveRegistration classes registry (depth + 1) reg beans = some answered := by
  induction depth generalizing reg beans answered with
  | zero => cases h
  | succ depth ih =>
    cases hheld : (held classes beans reg : Option (Except (Failure κ ε) (Bean κ))) with
    | some answer =>
      obtain ⟨after, hafter⟩ :=
        @resolveRegistration_of_held _ _ _ classes registry _ _ _ hheld
      rw [hafter] at h ⊢
      exact h
    | none =>
      rw [resolveRegistration_of_none hheld] at h ⊢
      obtain ⟨made, hmade, hanswered⟩ := Option.map_eq_some_iff.mp h
      refine Option.map_eq_some_iff.mpr ⟨made, ?_, hanswered⟩
      by_cases hmem : reg.implType ∈ beans.resolving
      · rw [createInstance_of_mem hmem] at hmade ⊢
        exact hmade
      · rw [createInstance_of_not_mem hmem] at hmade ⊢
        obtain ⟨final, hfinal, hreply⟩ := Option.map_eq_some_iff.mp hmade
        refine Option.map_eq_some_iff.mpr ⟨final, ?_, hreply⟩
        exact perform_more ih (Wellformed.creation reg.implType) hfinal

variable {depth : ℕ}

theorem call_more {depth' : ℕ} (hle : depth ≤ depth')
    {program : Resolving κ ε α} (hprogram : Wellformed registry program)
    (h : call classes registry depth program beans = some final) :
    call classes registry depth' program beans = some final := by
  induction hle with
  | refl => exact h
  | step _ ih => exact perform_more (resolveRegistration_succ _) hprogram ih

/-! ## Circular dependencies -/

theorem inCreation_append (path : List (TypeExpr κ)) (events events' : List (Event κ)) :
    inCreation path (events ++ events') = (inCreation path events).bind fun path' =>
        inCreation path' events' := by
  induction events generalizing path with
  | nil => rfl
  | cons event events ih =>
    cases event with
    | entered cls =>
      rw [cons_append, inCreation, inCreation]
      split
      · rfl
      · exact ih _
    | left cls => exact ih _
    | created reg bean => exact ih _
    | returned reg bean => exact ih _
    | injected owner slot key reg bean => exact ih _

def Traces (before : Beans κ) (path : Option (List (TypeExpr κ))) (after : Beans κ) : Prop :=
  ∃ events, after.events = before.events ++ events ∧ inCreation before.resolving events = path

namespace Traces

theorem refl (beans : Beans κ) : Traces beans (some beans.resolving) beans :=
  ⟨[], (append_nil _).symm, rfl⟩

theorem trans {first second third : Beans κ} {path : Option (List (TypeExpr κ))}
    (hfirst : Traces first (some second.resolving) second)
    (hsecond : Traces second path third) : Traces first path third := by
  obtain ⟨events, hevents, hpath⟩ := hfirst
  obtain ⟨events', hevents', hpath'⟩ := hsecond
  refine ⟨events ++ events', ?_, ?_⟩
  · rw [hevents', hevents, append_assoc]
  · rw [inCreation_append, hpath]
    exact hpath'

theorem stuck {first second third : Beans κ} {events : List (Event κ)}
    (hfirst : Traces first none second)
    (hsecond : third.events = second.events ++ events) :
    Traces first none third := by
  obtain ⟨before, hbefore, hpath⟩ := hfirst
  refine ⟨before ++ events, ?_, ?_⟩
  · rw [hsecond, hbefore, append_assoc]
  · rw [inCreation_append, hpath]
    rfl

end Traces

def Reports (registry : Registry κ) (resolver : Resolver κ ε) : Prop :=
  ∀ reg ∈ registry.all, ∀ beans reply after, resolver reg beans = some (reply, after) →
      ((∀ failure, reply = .error failure → ¬ failure.Circular) →
        Traces beans (some after.resolving) after) ∧
      ∀ failure, reply = .error failure → failure.Circular → Traces beans none after

theorem configReply_calm {owner : TypeExpr κ} {field : String} {failure : Failure κ ε}
    (h : configReply classes registry beans owner field = .error failure) :
    ¬ failure.Circular := by
  rintro ⟨chain, current, rfl⟩
  unfold configReply at h
  split at h
  · cases h
  · cases h

variable {result : Except (Failure κ ε) α}

theorem reports_perform (hreports : Reports registry resolver)
    {program : Resolving κ ε α} (hprogram : Wellformed registry program)
    {final : Beans κ}
    (h : Coroutine.perform (answerQuery classes registry resolver owner)
      program beans = some (result, final)) :
    ((∀ failure, result = .error failure → ¬ failure.Circular) →
      Traces beans (some final.resolving) final) ∧
    ∀ failure, result = .error failure → failure.Circular → Traces beans none final := by
  have hanswer : ∀ query (beans : Beans κ) reply next, registry.Serves query →
      answerQuery classes registry resolver owner query beans = some (reply, next) →
      ((∀ failure, reply = .error failure → ¬ failure.Circular) →
        Traces beans (some next.resolving) next) ∧
      ∀ failure, reply = .error failure → failure.Circular → Traces beans none next := by
    intro query beans reply next hserved hanswer
    cases query with
    | config cls field =>
      cases hanswer
      refine ⟨fun _ => Traces.refl _, ?_⟩
      intro failure hfailure hcircular
      exact absurd hcircular (configReply_calm hfailure)
    | resolve slot key reg =>
      obtain ⟨made, middle, hmade, rfl, hafter⟩ :=
        answerQuery_resolve_cases hanswer
      obtain ⟨hcalm, hcircular⟩ := hreports reg hserved beans _ _ hmade
      obtain ⟨bean, rfl, rfl⟩ | ⟨failure, rfl, rfl⟩ := hafter
      · have hmiddle := hcalm (by simp)
        refine ⟨fun _ => hmiddle.trans ⟨[_], rfl, rfl⟩, ?_⟩
        intro failure hfailure
        cases hfailure
      · exact ⟨fun h => hcalm (calm_of_map.mp h), fun failure hfailure =>
          hcircular failure (by cases hfailure; rfl)⟩
  exact Coroutine.perform_relates_relaying
    (fun before after => Traces before (some after.resolving) after)
    (fun before after => Traces before none after) Traces.refl
    (fun _ _ _ => Traces.trans) (fun _ _ _ => Traces.trans) hanswer
    hprogram.relays hprogram.serves h

variable {after : Beans κ}

theorem reports_createInstance (hreports : Reports registry resolver)
    {reply : Except (Failure κ ε) (Bean κ)}
    (h : createInstance classes registry resolver reg beans = some (reply, after)) :
    ((∀ failure, reply = .error failure → ¬ failure.Circular) →
      Traces beans (some after.resolving) after) ∧
    ∀ failure, reply = .error failure → failure.Circular → Traces beans none after := by
  obtain ⟨hmem, rfl, rfl⟩ | ⟨hmem, result, final, hperform, hend⟩ :=
    createInstance_cases h
  · constructor
    · intro hcalm
      exact absurd ⟨_, _, rfl⟩ (hcalm _ rfl)
    · intro _ _ _
      refine ⟨[.entered reg.implType], rfl, ?_⟩
      rw [inCreation, if_pos hmem]
  · have hentered : Traces beans (some (enter reg.implType beans).resolving)
        (enter reg.implType beans) := by
      refine ⟨[.entered reg.implType], rfl, ?_⟩
      rw [inCreation, if_neg hmem]
      rfl
    obtain ⟨hcalm, hcircular⟩ := reports_perform hreports
      (Wellformed.creation reg.implType) hperform
    obtain ⟨rfl, rfl, rfl⟩ | ⟨failure, rfl, rfl, rfl⟩ := hend
    · refine ⟨fun _ => ?_, ?_⟩
      · have hfinal := hentered.trans (hcalm (by simp))
        refine hfinal.trans ⟨[.created reg.id ⟨beans.nextBean, reg.implType⟩,
          .left reg.implType], ?_, rfl⟩
        simp
      · intro failure hfailure
        cases hfailure
    · constructor
      · intro hquiet
        have hcalm' : ∀ failure', (Except.error failure :
            Except (Failure κ ε) Unit) = .error failure' → ¬ failure'.Circular := by
          intro failure' hfailure'
          cases hfailure'
          exact hquiet failure rfl
        exact (hentered.trans (hcalm hcalm')).trans ⟨[.left reg.implType], rfl, rfl⟩
      · intro failure' hfailure' hfatal
        cases hfailure'
        exact (hentered.trans (hcircular failure rfl hfatal)).stuck rfl

theorem reports_resolveRegistration (depth : ℕ) :
    Reports registry (resolveRegistration classes registry depth) := by
  induction depth with
  | zero =>
    intro reg hreg beans reply after h
    cases h
  | succ depth ih =>
    intro reg hreg beans reply after h
    obtain ⟨bean, _, rfl, rfl⟩ | ⟨failure, hheld, rfl, rfl⟩ |
      ⟨_, made, middle, hmade, hend⟩ := resolveRegistration_cases h
    · refine ⟨fun _ => ⟨[.returned reg.id bean], rfl, rfl⟩, ?_⟩
      intro failure hfailure
      cases hfailure
    · refine ⟨fun _ => Traces.refl _, ?_⟩
      intro failure' hfailure' hfatal
      cases hfailure'
      rw [held_error hheld] at hfatal
      obtain ⟨chain, current, heq⟩ := hfatal
      cases heq
    · obtain ⟨hcalm, hcircular⟩ := reports_createInstance ih hmade
      obtain ⟨bean, rfl, rfl, rfl⟩ | ⟨failure, rfl, rfl, rfl⟩ := hend
      · refine ⟨fun _ => ?_, ?_⟩
        · refine (hcalm (by simp)).trans ⟨[.returned reg.id bean], ?_, ?_⟩
          · simp
          · simp [inCreation]
        · intro failure hfailure
          cases hfailure
      · exact ⟨hcalm, hcircular⟩

/-! ## One bean of a singleton -/

omit [DecidableEq κ] in
theorem creations_append (reg : ℕ) (events events' : List (Event κ)) :
    creations reg (events ++ events') = creations reg events ++ creations reg events' :=
  filterMap_append

omit [DecidableEq κ] in
theorem returns_append (reg : ℕ) (events events' : List (Event κ)) :
    returns reg (events ++ events') = returns reg events ++ returns reg events' :=
  filterMap_append

structure Recorded (reg : Registration κ) (beans : Beans κ) : Prop where
  created : (creations reg.id beans.events).Sublist (beans.instances reg.id).toList
  returned : ∀ bean ∈ returns reg.id beans.events, beans.instances reg.id = some bean

def Faithful (registry : Registry κ) (beans : Beans κ) : Prop :=
  ∀ reg ∈ registry.all, reg.scope = .singleton → Recorded reg beans

omit [DecidableEq κ] in
theorem Recorded.congr (h : Recorded reg beans) {events : List (Event κ)}
    (hevents : after.events = beans.events ++ events)
    (hcreated : creations reg.id events = [])
    (hreturned : returns reg.id events = [])
    (hinstance : after.instances reg.id = beans.instances reg.id) :
    Recorded reg after where
  created := by
    rw [hevents, creations_append, hcreated, append_nil, hinstance]
    exact h.created
  returned bean hbean := by
    rw [hevents, returns_append, hreturned, append_nil] at hbean
    rw [hinstance]
    exact h.returned bean hbean

omit [DecidableEq κ] in
theorem Faithful.createdOnce (h : Faithful registry beans) :
    CreatedOnce registry beans.events := by
  intro reg hreg hscope
  obtain ⟨hcreated, hreturned⟩ := h reg hreg hscope
  refine ⟨hcreated.length_le.trans (Option.length_toList_le), ?_⟩
  intro bean hbean
  have hinstance := hreturned bean hbean
  constructor
  · intro other hother
    rw [hreturned other hother] at hinstance
    exact Option.some.inj hinstance
  · intro made hmade
    have hmem := hcreated.subset hmade
    rw [hinstance] at hmem
    simpa using hmem

omit [DecidableEq κ] in
theorem Faithful.congr (h : Faithful registry beans) {events : List (Event κ)}
    (hevents : after.events = beans.events ++ events)
    (hquiet : ∀ reg ∈ registry.all, reg.scope = .singleton →
      creations reg.id events = [] ∧ returns reg.id events = [] ∧
        after.instances reg.id = beans.instances reg.id) :
    Faithful registry after := by
  intro reg hreg hscope
  obtain ⟨hcreated, hreturned, hinstance⟩ := hquiet reg hreg hscope
  exact (h reg hreg hscope).congr hevents hcreated hreturned hinstance

def Records (registry : Registry κ) (resolver : Resolver κ ε) : Prop :=
  ∀ reg ∈ registry.all, ∀ beans reply after, resolver reg beans = some (reply, after) →
      Faithful registry beans → Faithful registry after

theorem records_perform (hrecords : Records registry resolver)
    {program : Resolving κ ε α} (hprogram : Wellformed registry program)
    (h : Coroutine.perform (answerQuery classes registry resolver owner)
      program beans = some final) (hbeans : Faithful registry beans) :
    Faithful registry final.2 := by
  have hanswer : ∀ query (beans : Beans κ) reply next, registry.Serves query →
      answerQuery classes registry resolver owner query beans = some (reply, next) →
      Faithful registry beans → Faithful registry next := by
    intro query beans reply next hserved hanswer hbeans
    cases query with
    | config cls field =>
      cases hanswer
      exact hbeans
    | resolve slot key reg =>
      obtain ⟨made, middle, hmade, _, hafter⟩ :=
        answerQuery_resolve_cases hanswer
      have hmiddle := hrecords reg hserved beans made middle hmade hbeans
      obtain ⟨bean, _, rfl⟩ | ⟨failure, _, rfl⟩ := hafter
      · exact hmiddle.congr rfl fun _ _ _ => ⟨rfl, rfl, rfl⟩
      · exact hmiddle
  exact Coroutine.perform_relates
    (fun before after => Faithful registry before → Faithful registry after)
    (fun _ h => h) (fun _ _ _ hfirst hsecond h => hsecond (hfirst h)) hanswer
    hprogram.serves h hbeans

omit [DecidableEq κ] in
theorem Faithful.returned (h : Faithful registry beans)
    (hreg : reg ∈ registry.all) {bean : Bean κ}
    (hheld : held classes beans reg = some (.ok bean : Except (Failure κ ε) (Bean κ))) :
    Faithful registry (beans.emit (.returned reg.id bean)) := by
  intro other hother hscope
  by_cases hid : reg.id = other.id
  · have hsame := registry.identified reg hreg other hother hid
    subst hsame
    have hinstance : beans.instances reg.id = some bean := by
      simpa [held, hscope] using hheld
    obtain ⟨hcreated, hreturned⟩ := h reg hreg hscope
    constructor
    · rw [Beans.events_emit, creations_append]
      simpa [creations] using hcreated
    · intro other hother
      rw [Beans.events_emit, returns_append] at hother
      obtain hold | hnew := mem_append.mp hother
      · exact hreturned other hold
      · have heq : other = bean := by simpa [returns] using hnew
        rw [heq]
        exact hinstance
  · have hquiet : returns other.id [Event.returned reg.id bean] = [] := by
      simp [returns, hid]
    exact (h other hother hscope).congr rfl rfl hquiet rfl

theorem Faithful.settled (h : Faithful registry beans) (hreg : reg ∈ registry.all)
    (hempty : reg.scope = .singleton → beans.instances reg.id = none)
    (bean : Bean κ) :
    Faithful registry ((keep classes reg bean (leave reg.implType
        (beans.emit (.created reg.id bean)))).emit (.returned reg.id bean)) := by
  have hevents : ((keep classes reg bean (leave reg.implType
      (beans.emit (.created reg.id bean)))).emit (.returned reg.id bean)).events =
      beans.events ++ [.created reg.id bean, .left reg.implType, .returned reg.id bean] := by
    simp
  intro other hother hscope
  by_cases hid : reg.id = other.id
  · have hsame := registry.identified reg hreg other hother hid
    subst hsame
    obtain ⟨hcreated, hreturned⟩ := h reg hreg hscope
    rw [hempty hscope] at hcreated hreturned
    have hnone : creations reg.id beans.events = [] :=
      sublist_nil.mp hcreated
    have hinstance : ((keep classes reg bean (leave reg.implType
        (beans.emit (.created reg.id bean)))).emit
          (.returned reg.id bean)).instances reg.id = some bean := by
      simp [keep, hscope]
    constructor
    · rw [hevents, creations_append, hnone, hinstance]
      simp [creations]
    · intro other hother
      rw [hevents, returns_append] at hother
      obtain hold | hnew := mem_append.mp hother
      · exact absurd (hreturned other hold) (by simp)
      · have heq : other = bean := by simpa [returns] using hnew
        rw [hinstance, heq]
  · refine (h other hother hscope).congr hevents ?_ ?_ ?_
    · simp [creations, hid]
    · simp [returns, hid]
    · cases hreg' : reg.scope with
      | singleton =>
        simp [keep, hreg', Function.update_of_ne (Ne.symm hid)]
      | transient => simp [keep, hreg']
      | request => simp [keep, hreg']

theorem records_resolveRegistration (depth : ℕ) :
    Records registry (resolveRegistration classes registry depth) := by
  induction depth with
  | zero =>
    intro reg hreg beans reply after h
    cases h
  | succ depth ih =>
    intro reg hreg beans reply after h hbeans
    obtain ⟨bean, hheld, rfl, rfl⟩ | ⟨failure, hheld, rfl, rfl⟩ |
      ⟨hnone, made, middle, hmade, hend⟩ := resolveRegistration_cases h
    · exact hbeans.returned hreg hheld
    · exact hbeans
    · obtain ⟨_, rfl, rfl⟩ | ⟨hmem, result, final, hperform, hmade⟩ :=
        createInstance_cases hmade
      · obtain ⟨_, hreply, _⟩ | ⟨_, _, _, rfl⟩ := hend
        · cases hreply
        · exact hbeans.congr rfl fun _ _ _ => ⟨rfl, rfl, rfl⟩
      · have hentered : Faithful registry (enter reg.implType beans) :=
          hbeans.congr rfl fun _ _ _ => ⟨rfl, rfl, rfl⟩
        have hfinal := records_perform ih (Wellformed.creation reg.implType) hperform hentered
        obtain ⟨_, rfl, rfl⟩ | ⟨_, _, rfl, rfl⟩ := hmade
        · obtain ⟨bean, hreply, _, rfl⟩ | ⟨_, hreply, _⟩ := hend
          · cases hreply
            refine hfinal.settled hreg ?_ _
            intro hscope
            -- nothing was held, and the class was in creation since then
            have hspares := spares_perform (careful_resolveRegistration depth)
              (Wellformed.creation reg.implType) hperform
            rw [hspares.instances reg hreg (mem_append_right _ (mem_singleton_self _))]
            simpa [held, hscope] using hnone
          · cases hreply
        · obtain ⟨_, hreply, _⟩ | ⟨_, _, _, rfl⟩ := hend
          · cases hreply
          · exact hfinal.congr rfl fun _ _ _ => ⟨rfl, rfl, rfl⟩

/-! ## Sessions -/

def Outcome.Circular (outcome : Outcome κ ε) : Prop :=
  ∃ failure, outcome = .error failure ∧ failure.Circular

theorem call_contract {program : Resolving κ ε α}
    (hprogram : Wellformed registry program) (hidle : beans.resolving = [])
    (h : call classes registry depth program beans = some (result, after)) :
    after.resolving = [] ∧ (Faithful registry beans → Faithful registry after) ∧
      ∃ events, after.events = beans.events ++ events ∧
        ((∃ failure, result = .error failure ∧ failure.Circular) ↔
          inCreation [] events = none) := by
  have hspares := spares_perform (careful_resolveRegistration depth) hprogram h
  obtain ⟨hcalm, hcircular⟩ :=
    reports_perform (reports_resolveRegistration depth) hprogram h
  refine ⟨hspares.resolving.trans hidle,
    records_perform (records_resolveRegistration depth) hprogram h, ?_⟩
  by_cases hfatal : ∃ failure, result = .error failure ∧ failure.Circular
  · obtain ⟨failure, hfailure, hreported⟩ := hfatal
    obtain ⟨events, hevents, hpath⟩ := hcircular failure hfailure hreported
    rw [hidle] at hpath
    exact ⟨events, hevents, iff_of_true ⟨failure, hfailure, hreported⟩ hpath⟩
  · have hquiet : ∀ failure, result = .error failure → ¬ failure.Circular := by
      intro failure hfailure hreported
      exact hfatal ⟨failure, hfailure, hreported⟩
    obtain ⟨events, hevents, hpath⟩ := hcalm hquiet
    refine ⟨events, hevents, iff_of_false hfatal ?_⟩
    rw [hidle] at hpath
    rw [hpath]
    exact Option.some_ne_none _

variable {results : List (Outcome κ ε × List (Event κ))}

theorem session_cons {first : Call κ} {rest : List (Call κ)} :
    session classes registry depth (first :: rest) beans = some (results, after) ↔
      ∃ outcome next others,
        call classes registry depth (first.program classes registry) beans =
          some (outcome, next) ∧
        session classes registry depth rest next = some (others, after) ∧
        results = (outcome, next.events.drop beans.events.length) :: others := by
  rw [session, Option.bind_eq_some_iff]
  constructor
  · rintro ⟨⟨outcome, next⟩, hcall, hrest⟩
    obtain ⟨⟨others, last⟩, hothers, heq⟩ := Option.map_eq_some_iff.mp hrest
    cases heq
    exact ⟨outcome, next, others, hcall, hothers, rfl⟩
  · rintro ⟨outcome, next, others, hcall, hothers, rfl⟩
    refine ⟨(outcome, next), hcall, ?_⟩
    rw [hothers]
    rfl

theorem session_ends (calls : List (Call κ)) {beans : Beans κ} (hidle : beans.resolving = []) :
    ∃ results after, ∀ depth, registry.depth ≤ depth →
      session classes registry depth calls beans = some (results, after) := by
  induction calls generalizing beans with
  | nil => exact ⟨[], beans, fun _ _ => rfl⟩
  | cons first rest ih =>
    obtain ⟨⟨outcome, next⟩, hcall⟩ := @call_ends _ _ _ classes
      registry _ _ first.wellformed _ hidle registry.depth (Nat.le_refl registry.depth)
    obtain ⟨hnext, _⟩ := call_contract first.wellformed hidle hcall
    obtain ⟨others, after, hothers⟩ := ih hnext
    refine ⟨_, after, fun depth hdepth => session_cons.mpr
      ⟨outcome, next, others, ?_, hothers depth hdepth, rfl⟩⟩
    exact call_more hdepth first.wellformed hcall

theorem session_keeps {calls : List (Call κ)} (hidle : beans.resolving = [])
    (h : session classes registry depth calls beans = some (results, after)) :
    after.resolving = [] ∧ (Faithful registry beans → Faithful registry after) ∧
      ∀ item ∈ results, (item.1.Circular ↔ inCreation [] item.2 = none) := by
  induction calls generalizing beans results with
  | nil =>
    cases h
    refine ⟨hidle, id, ?_⟩
    intro item hitem
    cases hitem
  | cons first rest ih =>
    obtain ⟨outcome, next, others, hcall, hothers, rfl⟩ :=
      session_cons.mp h
    obtain ⟨hnext, hfaithful, events, hevents, hcircular⟩ :=
      call_contract first.wellformed hidle hcall
    obtain ⟨hafter, hfaithful', hitems⟩ := ih hnext hothers
    refine ⟨hafter, fun hbeans => hfaithful' (hfaithful hbeans), ?_⟩
    intro item hitem
    obtain rfl | hold := mem_cons.mp hitem
    · rw [hevents, drop_left]
      exact hcircular
    · exact hitems item hold

theorem call_ruled (hsteady : Steady classes registry base)
    {program : Resolving κ ε α} (hprogram : Wellformed registry program)
    (hidle : beans.resolving = [])
    (hjustified : Justified classes registry base beans)
    (h : call classes registry depth program beans = some (result, after)) :
    Justified classes registry base after ∧ ∃ depth, program.run? (replyOf classes registry base
        (ruling classes registry base depth [])) = some result := by
  have hstart : ∀ depth, False → program.run? (replyOf classes registry base
        (verdict classes registry base depth)) ≠ none :=
    fun _ h => h.elim
  have hlive : ∀ reg, (∀ depth, False → verdict classes registry base depth reg ≠ none) →
        Live classes registry base [] reg := by
    intro reg _ cls hcls
    cases hcls
  exact ruled_perform (ruled_resolveRegistration hsteady depth)
    (careful_resolveRegistration depth) hprogram hstart hlive hjustified hidle
    h

theorem call_unique (hsteady : Steady classes registry base) {depth' : ℕ}
    {program : Resolving κ ε α} (hprogram : Wellformed registry program)
    {beans' after' : Beans κ} (hidle : beans.resolving = [])
    (hidle' : beans'.resolving = [])
    (hjustified : Justified classes registry base beans)
    (hjustified' : Justified classes registry base beans')
    {result' : Except (Failure κ ε) α}
    (h : call classes registry depth program beans = some (result, after))
    (h' : call classes registry depth' program beans' =
      some (result', after')) : result = result' := by
  obtain ⟨_, first, hfirst⟩ :=
    call_ruled hsteady hprogram hidle hjustified h
  obtain ⟨_, second, hsecond⟩ :=
    call_ruled hsteady hprogram hidle' hjustified' h'
  have hmore : ∀ depth reg reply, ruling classes registry base depth [] reg = some reply →
        ruling classes registry base (depth + 1) [] reg = some reply :=
    fun depth reg reply => ruling_succ depth [] reg reply
  have hleft := Coroutine.run?_mono (replyOf_more fun reg reply =>
    Coroutine.answers_mono hmore (Nat.le_max_left first second)) hfirst
  have hright := Coroutine.run?_mono (replyOf_more fun reg reply =>
    Coroutine.answers_mono hmore (Nat.le_max_right first second)) hsecond
  rw [hleft] at hright
  exact Option.some.inj hright

theorem session_outcomes (hsteady : Steady classes registry base)
    (hbase : base.resolving = []) (hdepth : registry.depth ≤ depth)
    {calls : List (Call κ)} (hidle : beans.resolving = [])
    (hjustified : Justified classes registry base beans)
    (h : session classes registry depth calls beans = some (results, after)) :
    results.map (fun item => some item.1) = calls.map fun request =>
      (call classes registry depth (request.program classes registry) base).map Prod.fst := by
  induction calls generalizing beans results with
  | nil =>
    cases h
    rfl
  | cons first rest ih =>
    obtain ⟨outcome, next, others, hcall, hothers, rfl⟩ :=
      session_cons.mp h
    obtain ⟨hnext, _⟩ := call_contract first.wellformed hidle hcall
    obtain ⟨hjustified', _⟩ :=
      call_ruled hsteady first.wellformed hidle hjustified hcall
    obtain ⟨⟨alone, last⟩, halone⟩ :=
      call_ends first.wellformed hbase hdepth
    rw [map_cons, map_cons, ih hnext hjustified' hothers, halone,
      call_unique hsteady first.wellformed hidle hbase hjustified Justified.refl hcall halone]
    rfl

/-- Every session ends, with no class in creation; a call reports a circular
dependency exactly when it entered a class which was in creation; a
registration of singleton scope has one bean; and every call has the outcome
it would have had as the first one, when the `Config` bean is there from the
beginning and classes of request scope differ in their qualified names. -/
theorem session_contract {base : Beans κ} (hidle : base.resolving = [])
    (hnew : base.events = []) (calls : List (Call κ)) :
    ∃ results after, (∀ depth, registry.depth ≤ depth →
        session classes registry depth calls base = some (results, after)) ∧
      after.resolving = [] ∧
      (∀ item ∈ results, (item.1.Circular ↔ inCreation [] item.2 = none)) ∧
      CreatedOnce registry after.events ∧
      (Steady classes registry base →
        results.map (fun item => some item.1) = calls.map fun request =>
          (call classes registry registry.depth
            (request.program classes registry) base).map Prod.fst) := by
  obtain ⟨results, after, hends⟩ :=
    @session_ends _ _ _ classes registry calls _ hidle
  have hsession := hends registry.depth (Nat.le_refl _)
  have hfaithful : Faithful registry base := by
    intro reg hreg hscope
    constructor
    · rw [hnew]
      exact nil_sublist _
    · intro bean hbean
      rw [hnew] at hbean
      cases hbean
  obtain ⟨hafter, hkeeps, hitems⟩ := session_keeps hidle hsession
  refine ⟨results, after, hends, hafter, hitems, (hkeeps hfaithful).createdOnce, ?_⟩
  intro hsteady
  exact session_outcomes hsteady hidle (Nat.le_refl _) hidle Justified.refl hsession

/-- `A` needs `First` and the unregistered `Missing`; `Reader` has a `@Value`
field. -/
def needy (first : String) : Classes String Empty :=
  Classes.plain
    (fun cls =>
      if cls = .cls "A" then
        [⟨"first", .cls first, false⟩, ⟨"missing", .cls "Missing", false⟩]
      else [])
    fun cls =>
      if cls = .cls "Reader" then [⟨"name", .cls "str", .value⟩] else []

def twoNames : Registry String :=
  register (needy "First") (.cls "B") .singleton "y"
    (register (needy "First") (.cls "B") .singleton "x" Registry.empty)

/-- A class of which two beans are resolved, each twice. -/
theorem session_contract_twoNames : ∃ results after,
      session (needy "First") twoNames twoNames.depth
          [.resolveByName "x", .resolveByName "y", .resolveByName "x",
            .resolve (.cls "B")] (Beans.initial none) =
        some (results, after) ∧
      after.resolving = [] ∧ CreatedOnce twoNames after.events ∧
      results.map (fun item => some item.1) = List.replicate 4 (some (.ok [.cls "B"])) := by
  obtain ⟨results, after, hends, hafter, _, honce, houtcomes⟩ :=
    @session_contract _ _ _ (needy "First") twoNames (Beans.initial none)
      rfl rfl [.resolveByName "x", .resolveByName "y", .resolveByName "x", .resolve (.cls "B")]
  have hsteady : Steady (needy "First") twoNames (Beans.initial none) := by
    constructor
    · intro reg hreg
      cases hreg
    · decide
  exact ⟨results, after, hends _ (Nat.le_refl _), hafter, honce, houtcomes hsteady⟩
/-! ## What does not hold -/

def ClassCreatedOnce (registry : Registry κ) (events : List (Event κ)) :
    Prop :=
  ∀ reg ∈ registry.all, ∀ other ∈ registry.all, reg.scope = .singleton →
    other.scope = .singleton → reg.implType = other.implType →
      ∀ bean ∈ returns reg.id events, ∀ bean' ∈ returns other.id events, bean = bean'

def outcomes (classes : Classes κ ε) (registry : Registry κ)
    (calls : List (Call κ)) (beans : Beans κ) :
    Option (List (Outcome κ ε)) :=
  (session classes registry registry.depth calls beans).map fun final =>
    final.1.map Prod.fst

def FailureLeavesOutcomes (classes : Classes κ ε) (registry : Registry κ)
    (beans : Beans κ) : Prop :=
  ∀ first failure rest later, outcomes classes registry [first] beans = some [.error failure] →
      outcomes classes registry rest beans = some later →
        outcomes classes registry (first :: rest) beans = some (.error failure :: later)

/-- A `Config` bean whose instance has not been set. -/
def lateConfig : Registry String :=
  register (needy "Config") (.cls "Reader") .singleton ""
    (register (needy "Config") (.cls "Config") .singleton ""
      (register (needy "Config") (.cls "A") .singleton "" Registry.empty))

def sharedName : Registry String :=
  register (needy "First") (.cls "Second") .request ""
    (register (needy "First") (.cls "First") .request ""
      (register (needy "First") (.cls "A") .singleton "" Registry.empty))

/-- A class registered under two names has two beans; after a failed call
which created the `Config` bean, fields can be read; and after one which
created a bean of request scope, another class of that qualified name gets
it. -/
theorem not_session_contract : (¬ ∀ calls results after,
      session (needy "First") twoNames twoNames.depth calls
          (Beans.initial none) = some (results, after) →
        ClassCreatedOnce twoNames after.events) ∧
    ¬ FailureLeavesOutcomes (needy "Config") lateConfig (Beans.initial none) ∧
    ¬ FailureLeavesOutcomes { needy "First" with qualname := fun _ => "X" }
      sharedName (Beans.initial (some Dict.empty)) := by
  refine ⟨?_, ?_, ?_⟩
  · intro h
    have honce := h [.resolveByName "x", .resolveByName "y"] _ _ rfl
      ⟨1, .cls "B", .singleton, "y"⟩ (by decide)
      ⟨0, .cls "B", .singleton, "x"⟩ (by decide) rfl rfl rfl
      ⟨1, .cls "B"⟩ (by decide) ⟨0, .cls "B"⟩ (by decide)
    exact absurd honce (by decide)
  · intro h
    have houtcomes := h (.resolve (.cls "A")) _ [.resolve (.cls "Reader")] _ rfl rfl
    exact absurd houtcomes (by decide)
  · intro h
    have houtcomes := h (.resolve (.cls "A")) _ [.resolve (.cls "Second")] _ rfl rfl
    exact absurd houtcomes (by decide)

end PyFly.Container
