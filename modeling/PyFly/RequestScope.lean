import PyFly.FilteredQueries

/-!
# Beans of request scope

A container keeps the beans of request scope in the attributes of the active
request, under the qualified names of their classes.  Over any sequence of
resolutions and request switches, every class has its own bean in every
request exactly when no two registered classes of request scope have the same
qualified name.
-/

namespace PyFly.Container

open Library List

variable {κ ε : Type} [DecidableEq κ]
variable (classes : Classes κ ε) (registry : Registry κ)

/-! ## Requests -/

structure Delivery (κ : Type) where
  context : Option ℕ
  reg : ℕ
  bean : Bean κ
  deriving DecidableEq, Repr

structure Requests (κ : Type) where
  beans : Beans κ
  contexts : ℕ → Dict String (Bean κ)
  current : Option ℕ
  nextContext : ℕ
  deliveries : List (Delivery κ)

inductive RequestStep (κ : Type)
  | resolve (request : Call κ)
  | init
  | clear
  | switch (context : ℕ)
  deriving DecidableEq, Repr

def Requests.initial : Requests κ where
  beans := Beans.initial none
  contexts _ := Dict.empty
  current := none
  nextContext := 0
  deliveries := []

namespace Requests

def active (world : Requests κ) : Beans κ :=
  { world.beans with request := world.current.map world.contexts }

def delivered (context : Option ℕ) (events : List (Event κ)) : List (Delivery κ) :=
  events.filterMap fun
    | .returned reg bean => some ⟨context, reg, bean⟩
    | _ => none

def answered (world : Requests κ) (after : Beans κ) : Requests κ where
  beans := after
  contexts :=
    match world.current, after.request with
    | some context, some attributes =>
      Function.update world.contexts context attributes
    | _, _ => world.contexts
  current := world.current
  nextContext := world.nextContext
  deliveries := world.deliveries ++
    delivered world.current (after.events.drop world.beans.events.length)

/-- `init` makes a new context, `switch` is a change to another task, with the
context which is current there. -/
def step (world : Requests κ) : RequestStep κ → Option (Requests κ)
  | .resolve request =>
    (call classes registry registry.depth
      (request.program classes registry) world.active).map fun result =>
        world.answered result.2
  | .init => some { world with
        contexts :=
          Function.update world.contexts world.nextContext Dict.empty
        current := some world.nextContext
        nextContext := world.nextContext + 1 }
  | .clear => some { world with current := none }
  | .switch context =>
    if context < world.nextContext then
      some { world with current := some context }
    else some world

def run : List (RequestStep κ) → Requests κ → Option (Requests κ)
  | [], world => some world
  | first :: steps, world =>
    (world.step classes registry first).bind (run steps)

end Requests

def SharesByClass (deliveries : List (Delivery κ)) : Prop :=
  ∀ first ∈ deliveries, ∀ second ∈ deliveries, ∀ reg ∈ registry.all, ∀ other ∈ registry.all,
      reg.scope = .request → other.scope = .request →
      reg.id = first.reg → other.id = second.reg →
      (first.bean = second.bean ↔
        reg.implType = other.implType ∧ first.context = second.context)

def DistinctNames : Prop :=
  ∀ reg ∈ registry.all, ∀ other ∈ registry.all, reg.scope = .request → other.scope = .request →
    classes.qualname reg.implType = classes.qualname other.implType →
    reg.implType = other.implType

/-! ## Growth of the attributes -/

def attributeAt (beans : Beans κ) (key : String) : Option (Bean κ) :=
  beans.request.bind (·.get? key)

variable {classes registry}

variable {reg : Registration κ}

omit [DecidableEq κ] in
theorem qualname_of_cacheKey {other : Registration κ}
    (h : cacheKey classes reg = cacheKey classes other) :
    classes.qualname reg.implType = classes.qualname other.implType := by
  have hlists : ("__pyfly_bean_" ++ classes.qualname reg.implType).toList =
      ("__pyfly_bean_" ++ classes.qualname other.implType).toList :=
    congrArg String.toList h
  rw [String.toList_append, String.toList_append] at hlists
  exact String.toList_inj.mp (append_cancel_left hlists)

structure AttributesGrow (classes : Classes κ ε) (registry : Registry κ)
    (before after : Beans κ) : Prop where
  next : before.nextBean ≤ after.nextBean
  kept : ∀ key bean, attributeAt before key = some bean → attributeAt after key = some bean
  added : ∀ key bean, attributeAt after key = some bean →
    attributeAt before key = some bean ∨ before.nextBean ≤ bean.id ∧ bean.id < after.nextBean ∧
        ∃ reg ∈ registry.all, reg.scope = .request ∧
          cacheKey classes reg = key ∧ bean.type = reg.implType
  separate : ∀ key key' bean bean', attributeAt after key = some bean →
    attributeAt after key' = some bean' → attributeAt before key = none →
    attributeAt before key' = none → bean.id = bean'.id → key = key'
  returned : ∃ events, after.events = before.events ++ events ∧
    ∀ reg ∈ registry.all, reg.scope = .request → ∀ bean, .returned reg.id bean ∈ events →
      attributeAt after (cacheKey classes reg) = some bean

namespace AttributesGrow

omit [DecidableEq κ] in
theorem of_events {before after : Beans κ} (hrequest : after.request = before.request)
    (hnext : before.nextBean ≤ after.nextBean) {events : List (Event κ)}
    (hevents : after.events = before.events ++ events)
    (hreturned : ∀ reg ∈ registry.all, reg.scope = .request → ∀ bean,
      .returned reg.id bean ∈ events →
      attributeAt after (cacheKey classes reg) = some bean) :
    AttributesGrow classes registry before after := by
  have hattribute : attributeAt after = attributeAt before := by
    unfold attributeAt
    rw [hrequest]
  refine ⟨hnext, ?_, ?_, ?_, events, hevents, hreturned⟩
  · intro key bean h
    rwa [hattribute]
  · intro key bean h
    rw [hattribute] at h
    exact .inl h
  · intro key key' bean bean' h _ hnone
    rw [hattribute, hnone] at h
    cases h

omit [DecidableEq κ] in
theorem refl (beans : Beans κ) : AttributesGrow classes registry beans beans :=
  of_events rfl le_rfl (append_nil _).symm nofun

omit [DecidableEq κ] in
theorem trans {first second third : Beans κ}
    (hfirst : AttributesGrow classes registry first second)
    (hsecond : AttributesGrow classes registry second third) :
    AttributesGrow classes registry first third := by
  obtain ⟨events, hevents, hreturned⟩ := hfirst.returned
  obtain ⟨events', hevents', hreturned'⟩ := hsecond.returned
  refine ⟨hfirst.next.trans hsecond.next, ?_, ?_, ?_, events ++ events', ?_, ?_⟩
  · exact fun key bean h => hsecond.kept key bean (hfirst.kept key bean h)
  · intro key bean h
    have hnext := hfirst.next
    have hnext' := hsecond.next
    rcases hsecond.added key bean h with hold | ⟨hlow, hhigh, hreg⟩
    · rcases hfirst.added key bean hold with hold | ⟨hlow, hhigh, hreg⟩
      · exact .inl hold
      · exact .inr ⟨hlow, by omega, hreg⟩
    · exact .inr ⟨by omega, hhigh, hreg⟩
  · intro key key' bean bean' h h' hnone hnone' hid
    -- a bean which was there in between is older than one which was not
    have hyoung : ∀ key bean, attributeAt third key = some bean →
        attributeAt second key = none → second.nextBean ≤ bean.id := by
      intro key bean h hmiddle
      rcases hsecond.added key bean h with hold | ⟨hlow, _⟩
      · rw [hmiddle] at hold
        cases hold
      · exact hlow
    have hold : ∀ key bean old, attributeAt third key = some bean →
        attributeAt second key = some old → attributeAt first key = none →
        old = bean ∧ bean.id < second.nextBean := by
      intro key bean old h hmiddle hnone
      have hsame := hsecond.kept key old hmiddle
      rw [h] at hsame
      obtain rfl := Option.some.inj hsame
      rcases hfirst.added key bean hmiddle with hstart | ⟨_, hhigh, _⟩
      · rw [hnone] at hstart
        cases hstart
      · exact ⟨rfl, hhigh⟩
    rcases hmiddle : attributeAt second key with _ | old
    · have hlow := hyoung key bean h hmiddle
      rcases hmiddle' : attributeAt second key' with _ | old'
      · exact hsecond.separate key key' bean bean' h h' hmiddle hmiddle' hid
      · have hhigh := (hold key' bean' old' h' hmiddle' hnone').2
        omega
    · obtain ⟨rfl, hhigh⟩ := hold key bean old h hmiddle hnone
      rcases hmiddle' : attributeAt second key' with _ | old'
      · have hlow := hyoung key' bean' h' hmiddle'
        omega
      · obtain ⟨rfl, _⟩ := hold key' bean' old' h' hmiddle' hnone'
        exact hfirst.separate key key' old old' hmiddle hmiddle' hnone hnone' hid
  · rw [hevents', hevents, append_assoc]
  · intro reg hreg hscope bean hmem
    rcases mem_append.mp hmem with hmem | hmem
    · exact hsecond.kept _ _ (hreturned reg hreg hscope bean hmem)
    · exact hreturned' reg hreg hscope bean hmem

variable {reg : Registration κ} {beans : Beans κ}

omit [DecidableEq κ] in
theorem emit_returned (hreg : reg ∈ registry.all) {bean : Bean κ}
    (h : reg.scope = .request → attributeAt beans (cacheKey classes reg) = some bean) :
    AttributesGrow classes registry beans (beans.emit (.returned reg.id bean)) := by
  refine of_events rfl le_rfl (Beans.events_emit _ _) ?_
  intro other hother hscope made hmem
  obtain ⟨hid, rfl⟩ : other.id = reg.id ∧ made = bean := by simpa using hmem
  obtain rfl := registry.identified other hother reg hreg hid
  exact h hscope

omit [DecidableEq κ] in
theorem entering (cls : TypeExpr κ) (beans : Beans κ) :
    AttributesGrow classes registry beans (enter cls beans) :=
  of_events rfl (Nat.le_succ _) (events_enter cls beans) (by simp)

theorem leaving (cls : TypeExpr κ) (beans : Beans κ) :
    AttributesGrow classes registry beans (leave cls beans) :=
  of_events rfl le_rfl (events_leave cls beans) (by simp)

omit [DecidableEq κ] in
theorem emit_injected (owner : Option ℕ) (slot : Slot) (key : Key κ)
    (reg : ℕ) (bean : Bean κ) (beans : Beans κ) :
    AttributesGrow classes registry beans (beans.emit (.injected owner slot key reg bean)) :=
  of_events rfl le_rfl (Beans.events_emit _ _) (by simp)

omit [DecidableEq κ] in
theorem nextBean_keep (reg : Registration κ) (bean : Bean κ) (beans : Beans κ) :
    (Container.keep classes reg bean beans).nextBean = beans.nextBean := by
  unfold Container.keep
  cases reg.scope <;> rfl

omit [DecidableEq κ] in
theorem attributeAt_keep {reg : Registration κ} (hscope : reg.scope = .request)
    {beans : Beans κ} (hactive : beans.request.isSome) (bean : Bean κ) :
    attributeAt (keep classes reg bean beans) (cacheKey classes reg) = some bean ∧
      ∀ key ≠ cacheKey classes reg, attributeAt (keep classes reg bean beans) key =
          attributeAt beans key := by
  obtain ⟨attributes, hrequest⟩ := Option.isSome_iff_exists.mp hactive
  simp only [attributeAt, keep, hscope, hrequest, Option.map_some, Option.bind_some]
  exact ⟨Dict.get?_set_self _ _ _, fun key hkey => Dict.get?_set_of_ne hkey _⟩

omit [DecidableEq κ] in
theorem store (hreg : reg ∈ registry.all) (hscope : reg.scope = .request)
    {state : Beans κ} {made : Bean κ}
    (h : AttributesGrow classes registry beans state)
    (hclass : made.type = reg.implType) (hfresh : beans.nextBean ≤ made.id)
    (hnext : made.id < state.nextBean) (hactive : state.request.isSome)
    (hempty : attributeAt state (cacheKey classes reg) = none)
    (hyoung : ∀ key bean, attributeAt state key = some bean →
      attributeAt beans key = none → made.id < bean.id) :
    AttributesGrow classes registry beans (keep classes reg made state) := by
  obtain ⟨hsame, hother⟩ :=
    @attributeAt_keep κ ε classes reg hscope state hactive made
  have hfinal : ∀ key bean, attributeAt (keep classes reg made state) key = some bean →
      (key = cacheKey classes reg ∧ bean = made) ∨
        (key ≠ cacheKey classes reg ∧ attributeAt state key = some bean) := by
    intro key bean hkey
    by_cases heq : key = cacheKey classes reg
    · subst heq
      rw [hsame] at hkey
      exact .inl ⟨rfl, (Option.some.inj hkey).symm⟩
    · rw [hother key heq] at hkey
      exact .inr ⟨heq, hkey⟩
  have hkept : ∀ key bean, attributeAt state key = some bean →
      attributeAt (keep classes reg made state) key = some bean := by
    intro key bean hkey
    by_cases heq : key = cacheKey classes reg
    · rw [heq, hempty] at hkey
      cases hkey
    · rwa [hother key heq]
  obtain ⟨events, hpast, hreturned⟩ := h.returned
  refine ⟨?_, ?_, ?_, ?_, events, ?_, ?_⟩
  · rw [nextBean_keep]
    exact h.next
  · exact fun key bean hkey => hkept key bean (h.kept key bean hkey)
  · intro key bean hkey
    rw [nextBean_keep]
    rcases hfinal key bean hkey with ⟨rfl, rfl⟩ | ⟨_, hkey⟩
    · exact .inr ⟨hfresh, hnext, reg, hreg, hscope, rfl, hclass⟩
    · exact h.added key bean hkey
  · intro key key' bean bean' hkey hkey' hnone hnone' hid
    rcases hfinal key bean hkey with ⟨rfl, rfl⟩ | ⟨_, hold⟩
    · rcases hfinal key' bean' hkey' with ⟨rfl, _⟩ | ⟨_, hold'⟩
      · rfl
      · have hlater := hyoung key' bean' hold' hnone'
        omega
    · rcases hfinal key' bean' hkey' with ⟨rfl, rfl⟩ | ⟨_, hold'⟩
      · have hlater := hyoung key bean hold hnone
        omega
      · exact h.separate key key' bean bean' hold hold' hnone hnone' hid
  · rw [events_keep]
    exact hpast
  · intro other hother hscope bean hmem
    exact hkept _ _ (hreturned other hother hscope bean hmem)

omit [DecidableEq κ] in
theorem keep_elsewhere (hscope : reg.scope ≠ .request) (made : Bean κ) (state : Beans κ) :
    AttributesGrow classes registry state (keep classes reg made state) := by
  have hrequest : (keep classes reg made state).request = state.request := by
    unfold keep
    cases hreg : reg.scope with
    | request => exact absurd hreg hscope
    | singleton => rfl
    | transient => rfl
  refine of_events hrequest (nextBean_keep reg made state).ge ?_
    (fun _ _ _ _ hmem => absurd hmem not_mem_nil)
  rw [events_keep, append_nil]

theorem created (hreg : reg ∈ registry.all) {middle : Beans κ}
    (h : AttributesGrow classes registry (enter reg.implType beans) middle)
    (hfree : reg.scope = .request → middle.request.isSome ∧
      attributeAt middle (cacheKey classes reg) = none) :
    AttributesGrow classes registry beans
      ((keep classes reg ⟨beans.nextBean, reg.implType⟩ (leave reg.implType (middle.emit
          (.created reg.id ⟨beans.nextBean, reg.implType⟩)))).emit
        (.returned reg.id ⟨beans.nextBean, reg.implType⟩)) := by
  generalize hmade : (⟨beans.nextBean, reg.implType⟩ : Bean κ) = made
  have hevents : (leave reg.implType
      (middle.emit (.created reg.id made))).events = middle.events ++
        [.created reg.id made, .left reg.implType] := by
    simp
  have hleft : AttributesGrow classes registry beans
      (leave reg.implType (middle.emit (.created reg.id made))) := by
    refine ((entering _ _).trans h).trans (of_events rfl le_rfl hevents ?_)
    simp
  by_cases hscope : reg.scope = .request
  · obtain ⟨hactive, hempty⟩ := hfree hscope
    have hyoung : ∀ key bean, attributeAt middle key = some bean →
        attributeAt beans key = none → made.id < bean.id := by
      intro key bean hkey hnone
      rcases h.added key bean hkey with hold | ⟨hnext, _⟩
      · have hstart : attributeAt beans key = some bean := hold
        rw [hnone] at hstart
        cases hstart
      · exact hmade ▸ hnext
    have hstored := hleft.store hreg hscope (by rw [← hmade])
      (by rw [← hmade]) (by rw [← hmade]; exact h.next) hactive hempty hyoung
    exact hstored.trans (emit_returned hreg fun _ =>
      (@attributeAt_keep κ ε classes reg hscope (leave reg.implType
        (middle.emit (.created reg.id made))) hactive made).1)
  · exact (hleft.trans (keep_elsewhere hscope made _)).trans
      (emit_returned hreg fun h => absurd h hscope)

end AttributesGrow

variable {beans : Beans κ}

omit [DecidableEq κ] in
theorem attributeAt_of_held {bean : Bean κ} (h : held classes beans reg =
      some (.ok bean : Except (Failure κ ε) (Bean κ)))
    (hscope : reg.scope = .request) :
    attributeAt beans (cacheKey classes reg) = some bean := by
  unfold held at h
  rw [hscope] at h
  unfold attributeAt
  cases hrequest : beans.request with
  | none => simp [hrequest] at h
  | some attributes => simpa [hrequest] using h

omit [DecidableEq κ] in
theorem attributeAt_of_not_held (h : (held classes beans reg :
      Option (Except (Failure κ ε) (Bean κ))) = none)
    (hscope : reg.scope = .request) :
    beans.request.isSome ∧ attributeAt beans (cacheKey classes reg) = none := by
  unfold held at h
  rw [hscope] at h
  unfold attributeAt
  cases hrequest : beans.request with
  | none => simp [hrequest] at h
  | some attributes => simpa [hrequest] using h

def Adds (classes : Classes κ ε) (registry : Registry κ) (resolver : Resolver κ ε) : Prop :=
  ∀ reg ∈ registry.all, ∀ beans reply after,
    resolver reg beans = some (reply, after) → AttributesGrow classes registry beans after

theorem attributesGrow_perform {resolver : Resolver κ ε}
    (hresolver : Adds classes registry resolver) {owner : Option ℕ} {α : Type}
    {program : Resolving κ ε α} (hprogram : Wellformed registry program)
    {final : Except (Failure κ ε) α × Beans κ}
    (h : Coroutine.perform (answerQuery classes registry resolver owner)
      program beans = some final) :
    AttributesGrow classes registry beans final.2 := by
  have hanswer : ∀ query (beans : Beans κ) reply next, registry.Serves query →
      answerQuery classes registry resolver owner query beans = some (reply, next) →
      AttributesGrow classes registry beans next := by
    intro query beans reply next hserved hanswer
    cases query with
    | config cls field =>
      cases hanswer
      exact AttributesGrow.refl beans
    | resolve slot key reg =>
      obtain ⟨made, middle, hmade, _, hafter⟩ :=
        answerQuery_resolve_cases hanswer
      have hmiddle := hresolver reg hserved beans made middle hmade
      obtain ⟨bean, _, rfl⟩ | ⟨failure, _, rfl⟩ := hafter
      · exact hmiddle.trans (AttributesGrow.emit_injected _ _ _ _ _ middle)
      · exact hmiddle
  exact Coroutine.perform_relates (AttributesGrow classes registry) AttributesGrow.refl
    (fun _ _ _ => AttributesGrow.trans) hanswer hprogram.serves h

theorem adds_resolveRegistration (hnames : DistinctNames classes registry) (depth : ℕ) :
    Adds classes registry (resolveRegistration classes registry depth) := by
  induction depth with
  | zero =>
    intro reg hreg beans reply after h
    cases h
  | succ depth ih =>
    intro reg hreg beans reply after h
    obtain ⟨bean, hheld, rfl, rfl⟩ | ⟨failure, hheld, rfl, rfl⟩ |
      ⟨hnone, made, middle, hmade, hend⟩ := resolveRegistration_cases h
    · exact AttributesGrow.emit_returned hreg (attributeAt_of_held hheld)
    · exact AttributesGrow.refl _
    · obtain ⟨_, rfl, rfl⟩ | ⟨hmem, result, final, hperform, hmade⟩ :=
        createInstance_cases hmade
      · obtain ⟨_, hreply, _⟩ | ⟨_, _, _, rfl⟩ := hend
        · cases hreply
        · exact AttributesGrow.of_events rfl le_rfl (Beans.events_emit _ _) (by simp)
      · have hcreation : Wellformed registry (creation classes registry reg.implType) :=
          Wellformed.creation reg.implType
        have hgrows := attributesGrow_perform ih hcreation hperform
        obtain ⟨_, rfl, rfl⟩ | ⟨_, _, rfl, rfl⟩ := hmade
        · obtain ⟨bean, hreply, _, rfl⟩ | ⟨_, hreply, _⟩ := hend
          · cases hreply
            refine AttributesGrow.created hreg hgrows fun hscope => ?_
            -- the class was in creation, and no other has its key
            obtain ⟨hactive, hempty⟩ := attributeAt_of_not_held hnone hscope
            have hspares := spares_perform
              (careful_resolveRegistration depth) hcreation hperform
            refine ⟨hspares.active.trans hactive, (hspares.attributes _ ?_).trans hempty⟩
            intro other hother hscope' hkey
            rw [hnames other hother reg hreg hscope' hscope (qualname_of_cacheKey hkey)]
            exact mem_append_right _ (mem_singleton_self _)
          · cases hreply
        · obtain ⟨_, hreply, _⟩ | ⟨_, _, _, rfl⟩ := hend
          · cases hreply
          · exact ((AttributesGrow.entering _ _).trans hgrows).trans
              (AttributesGrow.leaving _ _)

/-! ## Request switches -/

structure Consistent (classes : Classes κ ε) (registry : Registry κ)
    (world : Requests κ) : Prop where
  idle : world.beans.resolving = []
  current : ∀ context ∈ world.current, context < world.nextContext
  unused : ∀ context, world.nextContext ≤ context → world.contexts context = Dict.empty
  below : ∀ context key bean, (world.contexts context).get? key = some bean →
      bean.id < world.beans.nextBean
  typed : ∀ context key bean, (world.contexts context).get? key = some bean →
      ∃ reg ∈ registry.all, reg.scope = .request ∧
        cacheKey classes reg = key ∧ bean.type = reg.implType
  separate : ∀ context context' key key' bean bean',
    (world.contexts context).get? key = some bean →
    (world.contexts context').get? key' = some bean' →
    bean.id = bean'.id → context = context' ∧ key = key'
  delivered : ∀ delivery ∈ world.deliveries, ∀ reg ∈ registry.all,
    reg.scope = .request → reg.id = delivery.reg → ∃ context, delivery.context = some context ∧
        (world.contexts context).get? (cacheKey classes reg) = some delivery.bean

namespace Consistent

omit [DecidableEq κ] in
theorem initial : Consistent classes registry Requests.initial where
  idle := rfl
  current := nofun
  unused _ _ := rfl
  below _ _ _ := nofun
  typed _ _ _ := nofun
  separate _ _ _ _ _ _ := nofun
  delivered := nofun

variable {world : Requests κ}

omit [DecidableEq κ] in
theorem sharesByClass (hnames : DistinctNames classes registry)
    (h : Consistent classes registry world) :
    SharesByClass registry world.deliveries := by
  intro first hfirst second hsecond reg hreg other hother hscope hscope' hid hid'
  obtain ⟨context, hcontext, hkept⟩ :=
    h.delivered first hfirst reg hreg hscope hid
  obtain ⟨context', hcontext', hkept'⟩ :=
    h.delivered second hsecond other hother hscope' hid'
  constructor
  · intro hbean
    obtain ⟨rfl, hkey⟩ := h.separate _ _ _ _ _ _ hkept hkept' (by rw [hbean])
    exact ⟨hnames reg hreg other hother hscope hscope'
      (qualname_of_cacheKey hkey), hcontext.trans hcontext'.symm⟩
  · rintro ⟨hclass, hsame⟩
    rw [hcontext, hcontext'] at hsame
    obtain rfl := Option.some.inj hsame
    have hkey : cacheKey classes reg = cacheKey classes other := by
      rw [cacheKey, cacheKey, hclass]
    rw [hkey, hkept'] at hkept
    exact (Option.some.inj hkept).symm

omit [DecidableEq κ] in
theorem mem_delivered {context : Option ℕ} {events : List (Event κ)} {delivery : Delivery κ}
    (h : delivery ∈ Requests.delivered context events) :
    delivery.context = context ∧ .returned delivery.reg delivery.bean ∈ events := by
  obtain ⟨event, hevent, hsome⟩ := mem_filterMap.mp h
  cases event with
  | returned reg bean =>
    obtain rfl := Option.some.inj hsome
    exact ⟨rfl, hevent⟩
  | _ => cases hsome

variable {after : Beans κ}

omit [DecidableEq κ] in
theorem answered_inactive (h : Consistent classes registry world)
    (hgrows : AttributesGrow classes registry world.active after)
    (hidle : after.resolving = []) (hcurrent : world.current = none)
    (hrequest : after.request = none) :
    Consistent classes registry (world.answered after) := by
  have hcontexts : (world.answered after).contexts = world.contexts := by
    simp [Requests.answered, hcurrent]
  obtain ⟨events, hevents, hreturned⟩ := hgrows.returned
  refine ⟨hidle, h.current, ?_, ?_, ?_, ?_, ?_⟩
  · rw [hcontexts]
    exact h.unused
  · rw [hcontexts]
    intro context key bean hkey
    exact (h.below context key bean hkey).trans_le hgrows.next
  · rw [hcontexts]
    exact h.typed
  · rw [hcontexts]
    exact h.separate
  · rw [hcontexts]
    intro delivery hdelivery reg hreg hscope hid
    rcases mem_append.mp hdelivery with hold | hnew
    · exact h.delivered delivery hold reg hreg hscope hid
    · rw [hevents] at hnew
      obtain ⟨_, hevent⟩ := mem_delivered hnew
      rw [show world.active.events = world.beans.events from rfl, drop_left, ← hid] at hevent
      have hkept := hreturned reg hreg hscope delivery.bean hevent
      simp [attributeAt, hrequest] at hkept

omit [DecidableEq κ] in
theorem source_of_answered
    (hgrows : AttributesGrow classes registry world.active after) {context : ℕ}
    {attributes : Dict String (Bean κ)}
    (hbefore : attributeAt world.active = (world.contexts context).get?)
    (hafter : attributeAt after = attributes.get?) {place : ℕ} {key : String}
    {bean : Bean κ}
    (hkey : (Function.update world.contexts context attributes place).get? key = some bean) :
    (world.contexts place).get? key = some bean ∨
      place = context ∧ attributes.get? key = some bean ∧
        (world.contexts context).get? key = none ∧
        world.beans.nextBean ≤ bean.id ∧ bean.id < after.nextBean ∧
        ∃ reg ∈ registry.all, reg.scope = .request ∧
          cacheKey classes reg = key ∧ bean.type = reg.implType := by
  by_cases hplace : place = context
  · subst hplace
    rw [Function.update_self] at hkey
    have hnew : attributeAt after key = some bean := by
      rw [hafter]
      exact hkey
    rcases hold : (world.contexts place).get? key with _ | old
    · rcases hgrows.added key bean hnew with hstart | ⟨hlow, hhigh, hreg⟩
      · rw [hbefore, hold] at hstart
        cases hstart
      · exact .inr ⟨rfl, hkey, rfl, hlow, hhigh, hreg⟩
    · have hstart : attributeAt world.active key = some old := by
        rw [hbefore]
        exact hold
      have hsame := hgrows.kept key old hstart
      rw [hnew] at hsame
      exact .inl hsame.symm
  · rw [Function.update_of_ne hplace] at hkey
    exact .inl hkey

omit [DecidableEq κ] in
theorem answered_active (h : Consistent classes registry world)
    (hgrows : AttributesGrow classes registry world.active after)
    (hidle : after.resolving = []) {context : ℕ}
    (hcurrent : world.current = some context)
    {attributes : Dict String (Bean κ)}
    (hrequest : after.request = some attributes) :
    Consistent classes registry (world.answered after) := by
  have hcontexts : (world.answered after).contexts =
      Function.update world.contexts context attributes := by
    simp [Requests.answered, hcurrent, hrequest]
  have hbefore : attributeAt world.active = (world.contexts context).get? := by
    funext key
    simp [attributeAt, Requests.active, hcurrent]
  have hafter : attributeAt after = attributes.get? := by
    funext key
    simp [attributeAt, hrequest]
  obtain ⟨events, hevents, hreturned⟩ := hgrows.returned
  have hnext : world.beans.nextBean ≤ after.nextBean := hgrows.next
  refine ⟨hidle, h.current, ?_, ?_, ?_, ?_, ?_⟩
  · intro place hplace
    rw [hcontexts, Function.update_of_ne]
    · exact h.unused place hplace
    · rintro rfl
      exact absurd (h.current _ hcurrent) (Nat.not_lt.mpr hplace)
  · rw [hcontexts]
    intro place key bean hkey
    rcases source_of_answered hgrows hbefore hafter hkey with
      hold | ⟨_, _, _, _, hhigh, _⟩
    · exact (h.below place key bean hold).trans_le hnext
    · exact hhigh
  · rw [hcontexts]
    intro place key bean hkey
    rcases source_of_answered hgrows hbefore hafter hkey with
      hold | ⟨_, _, _, _, _, hreg⟩
    · exact h.typed place key bean hold
    · exact hreg
  · rw [hcontexts]
    intro place place' key key' bean bean' hkey hkey' hid
    rcases source_of_answered hgrows hbefore hafter hkey with
      hold | ⟨rfl, hnew, hnone, hlow, _⟩
    · rcases source_of_answered hgrows hbefore hafter hkey' with
        hold' | ⟨_, _, _, hlow', _⟩
      · exact h.separate _ _ _ _ _ _ hold hold' hid
      · have hhigh := h.below place key bean hold
        omega
    · rcases source_of_answered hgrows hbefore hafter hkey' with
        hold' | ⟨rfl, hnew', hnone', _⟩
      · have hhigh := h.below place' key' bean' hold'
        omega
      · rw [← hafter] at hnew hnew'
        rw [← hbefore] at hnone hnone'
        exact ⟨rfl, hgrows.separate _ _ _ _ hnew hnew' hnone hnone' hid⟩
  · rw [hcontexts]
    intro delivery hdelivery reg hreg hscope hid
    rcases mem_append.mp hdelivery with hold | hnew
    · obtain ⟨place, hplace, hkept⟩ :=
        h.delivered delivery hold reg hreg hscope hid
      refine ⟨place, hplace, ?_⟩
      by_cases hsame : place = context
      · subst hsame
        rw [← hbefore] at hkept
        rw [Function.update_self, ← hafter]
        exact hgrows.kept _ _ hkept
      · rwa [Function.update_of_ne hsame]
    · rw [hevents] at hnew
      obtain ⟨hplace, hevent⟩ := mem_delivered hnew
      rw [show world.active.events = world.beans.events from rfl, drop_left, ← hid] at hevent
      refine ⟨context, hplace.trans hcurrent, ?_⟩
      rw [Function.update_self, ← hafter]
      exact hreturned reg hreg hscope delivery.bean hevent

theorem step (hnames : DistinctNames classes registry) {world next : Requests κ}
    (h : Consistent classes registry world) {step : RequestStep κ}
    (hstep : world.step classes registry step = some next) :
    Consistent classes registry next := by
  cases step with
  | resolve request =>
    obtain ⟨⟨outcome, after⟩, hcall, rfl⟩ := Option.map_eq_some_iff.mp hstep
    have hprogram : Wellformed registry (request.program classes registry) := request.wellformed
    have hgrows := attributesGrow_perform (adds_resolveRegistration hnames _) hprogram hcall
    have hspares := spares_perform (careful_resolveRegistration _) hprogram hcall
    have hidle : after.resolving = [] := hspares.resolving.trans h.idle
    have hactive := hspares.active
    cases hcurrent : world.current with
    | none =>
      refine answered_inactive h hgrows hidle hcurrent ?_
      simpa [Requests.active, hcurrent] using hactive
    | some context =>
      obtain ⟨attributes, hrequest⟩ : ∃ attributes, after.request = some attributes := by
        simpa [Requests.active, hcurrent, Option.isSome_iff_exists] using hactive
      exact answered_active h hgrows hidle hcurrent hrequest
  | init =>
    obtain rfl := Option.some.inj hstep
    have hempty : Function.update world.contexts world.nextContext
        Dict.empty = world.contexts := by
      rw [← h.unused world.nextContext le_rfl, Function.update_eq_self]
    rw [hempty]
    refine { h with
      current := ?_
      unused := fun context hcontext =>
        h.unused context (Nat.le_of_succ_le hcontext) }
    rintro _ ⟨⟩
    exact Nat.lt_succ_self _
  | clear =>
    obtain rfl := Option.some.inj hstep
    exact { h with current := nofun }
  | switch context =>
    rw [Requests.step] at hstep
    split at hstep
    · next hcontext =>
        obtain rfl := Option.some.inj hstep
        refine { h with current := ?_ }
        rintro _ ⟨⟩
        exact hcontext
    · obtain rfl := Option.some.inj hstep
      exact h

theorem run (hnames : DistinctNames classes registry)
    {steps : List (RequestStep κ)} {final : Requests κ}
    (h : Consistent classes registry world)
    (hrun : Requests.run classes registry steps world = some final) :
    Consistent classes registry final := by
  induction steps generalizing world with
  | nil =>
    obtain rfl := Option.some.inj hrun
    exact h
  | cons first steps ih =>
    obtain ⟨next, hstep, hrest⟩ := Option.bind_eq_some_iff.mp hrun
    exact ih (h.step hnames hstep) hrest

end Consistent

theorem Requests.step_ends {world : Requests κ}
    (hidle : world.beans.resolving = []) (step : RequestStep κ) :
    ∃ next, world.step classes registry step = some next ∧ next.beans.resolving = [] := by
  cases step with
  | resolve request =>
    have hprogram : Wellformed registry (request.program classes registry) := request.wellformed
    obtain ⟨⟨outcome, after⟩, hcall⟩ :=
      @call_ends _ _ _ classes registry _ _ hprogram world.active hidle _ le_rfl
    have hspares := spares_perform (careful_resolveRegistration _) hprogram hcall
    refine ⟨world.answered after, ?_, hspares.resolving.trans hidle⟩
    rw [Requests.step, hcall]
    rfl
  | init => exact ⟨_, rfl, hidle⟩
  | clear => exact ⟨_, rfl, hidle⟩
  | switch context =>
    rw [Requests.step]
    split
    · exact ⟨_, rfl, hidle⟩
    · exact ⟨_, rfl, hidle⟩

theorem Requests.run_ends (steps : List (RequestStep κ)) {world : Requests κ}
    (hidle : world.beans.resolving = []) :
    ∃ final, Requests.run classes registry steps world = some final := by
  induction steps generalizing world with
  | nil => exact ⟨world, rfl⟩
  | cons first steps ih =>
    obtain ⟨next, hstep, hnext⟩ :=
      @step_ends _ _ _ classes registry _ hidle first
    obtain ⟨final, hfinal⟩ := ih hnext
    exact ⟨final, by rw [Requests.run, hstep]; exact hfinal⟩

/-! ## Classes with one name -/

theorem exists_call {reg : Registration κ} (hreg : reg ∈ registry.all) :
    ∃ (request : Call κ) (key : Key κ), ∀ classes : Classes κ ε,
      request.program classes registry = (do
        return [← Async.ask (Query.resolve .outermost key reg)] :
          Resolving κ ε (List (TypeExpr κ))) := by
  rcases mem_append.mp hreg with hfiled | hnamed
  · obtain ⟨type, htype⟩ := Dict.exists_get?_of_mem_values hfiled
    refine ⟨.resolve type, .type type, fun classes => ?_⟩
    rw [Call.program, resolve, htype]
  · obtain ⟨name, hname⟩ := Dict.exists_get?_of_mem_values hnamed
    refine ⟨.resolveByName name, .name name, fun classes => ?_⟩
    rw [Call.program, resolveByName, hname]

theorem resolve_independent {reg : Registration κ}
    (hscope : reg.scope = .request) {beans : Beans κ}
    (hidle : beans.resolving = []) (hactive : beans.request.isSome)
    (depth : ℕ) :
    ∃ bean after events, resolveRegistration (classes.withCode .independent) registry
          (depth + 1) reg beans = some (.ok bean, after) ∧
        after.events = beans.events ++ events ∧
        .returned reg.id bean ∈ events ∧
        after.request.isSome ∧
        attributeAt after (cacheKey classes reg) = some bean ∧
        ∀ old, attributeAt beans (cacheKey classes reg) = some old → bean = old := by
  obtain ⟨attributes, hrequest⟩ := Option.isSome_iff_exists.mp hactive
  have hheld : (held (classes.withCode .independent) beans reg :
      Option (Except (Failure κ ε) (Bean κ))) =
        (attributes.get? (cacheKey classes reg)).map .ok := by
    unfold held
    rw [hscope, hrequest]
    rfl
  cases hkept : attributes.get? (cacheKey classes reg) with
  | some bean =>
    rw [hkept] at hheld
    refine ⟨bean, beans.emit (.returned reg.id bean),
      [.returned reg.id bean], ?_, rfl, mem_singleton_self _, hactive,
      ?_, ?_⟩
    · rw [resolveRegistration, hheld]
      rfl
    · simp [attributeAt, hrequest, hkept]
    · intro old hold
      simpa [attributeAt, hrequest, hkept] using hold
  | none =>
    rw [hkept] at hheld
    have hmem : reg.implType ∉ beans.resolving := by
      rw [hidle]
      exact not_mem_nil
    rw [resolveRegistration_of_none hheld, createInstance_of_not_mem hmem, creation_independent]
    refine ⟨⟨beans.nextBean, reg.implType⟩, _,
      [.entered reg.implType, .created reg.id ⟨beans.nextBean, reg.implType⟩,
        .left reg.implType,
        .returned reg.id ⟨beans.nextBean, reg.implType⟩], rfl, ?_, ?_, ?_,
      ?_, ?_⟩
    · simp
    · simp
    · simp [keep, hscope, hrequest]
    · exact (@AttributesGrow.attributeAt_keep κ ε (classes.withCode .independent) reg
        hscope (leave reg.implType ((enter reg.implType beans).emit
          (.created reg.id ⟨beans.nextBean, reg.implType⟩))) hactive _).1
    · intro old hold
      simp [attributeAt, hrequest, hkept] at hold

theorem exists_delivery {reg : Registration κ} (hreg : reg ∈ registry.all)
    (hscope : reg.scope = .request) :
    ∃ request : Call κ, ∀ (world : Requests κ) (context : ℕ),
      world.beans.resolving = [] → world.current = some context →
      ∃ next bean, world.step (classes.withCode .independent) registry
            (.resolve request) = some next ∧
          next.beans.resolving = [] ∧ next.current = some context ∧
          (next.contexts context).get? (cacheKey classes reg) = some bean ∧
          (∀ old, (world.contexts context).get? (cacheKey classes reg) =
            some old → bean = old) ∧
          ⟨some context, reg.id, bean⟩ ∈ next.deliveries ∧
          ∀ delivery ∈ world.deliveries, delivery ∈ next.deliveries := by
  obtain ⟨request, key, hprogram⟩ := @exists_call κ ε _ registry reg hreg
  refine ⟨request, fun world context hidle hcurrent => ?_⟩
  have hactive : world.active.request.isSome := by
    simp [Requests.active, hcurrent]
  obtain ⟨bean, after, events, hresolve, hevents, hreturned, hafter, hkept,
    hsame⟩ := @resolve_independent _ _ _ classes registry reg hscope
      world.active hidle hactive registry.implTypes.length
  have hcall : call (classes.withCode .independent) registry registry.depth
      (request.program (classes.withCode .independent) registry)
      world.active = some (.ok [bean.type],
        after.emit (.injected none .outermost key reg.id bean)) := by
    rw [hprogram]
    exact Coroutine.perform_await_eq_some.mpr ⟨_, _,
      answerQuery_resolve_of_some hresolve none .outermost key, rfl⟩
  obtain ⟨attributes, hattributes⟩ := Option.isSome_iff_exists.mp hafter
  have hprogram' : Wellformed registry
      (request.program (classes.withCode .independent) registry) :=
    request.wellformed
  have hspares := spares_perform (careful_resolveRegistration _) hprogram' hcall
  refine ⟨world.answered (after.emit (.injected none .outermost key reg.id bean)), bean, ?_,
    hspares.resolving.trans hidle, hcurrent, ?_, ?_, ?_, ?_⟩
  · rw [Requests.step, hcall]
    rfl
  · simp only [Requests.answered, hcurrent, Beans.request_emit, hattributes,
      Function.update_self]
    simpa [attributeAt, hattributes] using hkept
  · intro old hold
    refine hsame old ?_
    simpa [attributeAt, Requests.active, hcurrent] using hold
  · refine mem_append_right _ (mem_filterMap.mpr ⟨.returned reg.id bean, ?_, by rw [hcurrent]⟩)
    rw [Beans.events_emit, hevents, show world.active.events = world.beans.events from rfl,
      append_assoc, drop_left]
    exact mem_append_left _ hreturned
  · exact fun delivery hdelivery => mem_append_left _ hdelivery

def SharesInstances (classes : Classes κ ε) (registry : Registry κ) : Prop :=
  ∀ (code : Code κ ε) (steps : List (RequestStep κ)), ∃ final,
    Requests.run (classes.withCode code) registry steps .initial =
      some final ∧ SharesByClass registry final.deliveries

theorem distinctNames_of_sharesInstances (h : SharesInstances classes registry) :
    DistinctNames classes registry := by
  intro reg hreg other hother hscope hscope' hname
  have hkey : cacheKey classes reg = cacheKey classes other := by
    rw [cacheKey, cacheKey, hname]
  obtain ⟨first, hfirst⟩ :=
    @exists_delivery _ _ _ classes registry reg hreg hscope
  obtain ⟨second, hsecond⟩ :=
    @exists_delivery _ _ _ classes registry other hother hscope'
  obtain ⟨final, hrun, hshares⟩ :=
    h .independent [.init, .resolve first, .resolve second]
  obtain ⟨begun, hbegun, hidle, hcurrent⟩ : ∃ begun : Requests κ,
      Requests.initial.step (classes.withCode .independent) registry .init =
        some begun ∧ begun.beans.resolving = [] ∧ begun.current = some 0 :=
    ⟨_, rfl, rfl, rfl⟩
  obtain ⟨middle, bean, hmiddle, hidle', hcurrent', hkept, _, hdelivered, _⟩ :=
    hfirst begun 0 hidle hcurrent
  obtain ⟨last, bean', hlast, _, _, _, hsame, hdelivered', hearlier⟩ :=
    hsecond middle 0 hidle' hcurrent'
  have hfinal : last = final := by
    rw [Requests.run, hbegun, Option.bind_some, Requests.run, hmiddle,
      Option.bind_some, Requests.run, hlast] at hrun
    exact Option.some.inj hrun
  subst hfinal
  rw [hkey] at hkept
  exact ((hshares _ (hearlier _ hdelivered) _ hdelivered' reg hreg other hother
    hscope hscope' rfl rfl).mp (hsame bean hkept).symm).1

/-- Over all runs, resolutions of request scope share beans by class and
request exactly when the qualified names of the classes are distinct. -/
theorem sharesInstances_iff_distinctNames (classes : Classes κ ε) (registry : Registry κ) :
    SharesInstances classes registry ↔ DistinctNames classes registry := by
  refine ⟨distinctNames_of_sharesInstances, fun hnames code steps => ?_⟩
  obtain ⟨final, hfinal⟩ := @Requests.run_ends _ _ _
    (classes.withCode code) registry steps .initial rfl
  have hnames' : DistinctNames (classes.withCode code) registry := hnames
  exact ⟨final, hfinal, (Consistent.initial.run hnames' hfinal).sharesByClass hnames'⟩

/-- Classes of two modules, both with the qualified name `UserContext`. -/
def twoModules : Classes String Empty :=
  { Classes.plain (fun _ => []) (fun _ => []) with
    qualname := fun _ => "UserContext" }

def userContexts : Registry String :=
  register twoModules (.cls "billing.UserContext") .request ""
    (register twoModules (.cls "orders.UserContext") .request "" Registry.empty)

/-- The second class gets the bean of the first. -/
theorem not_sharesInstances_userContexts :
    ¬ ∀ (classes : Classes String Empty) (registry : Registry String),
      SharesInstances classes registry := by
  intro h
  have hnames :=
    (sharesInstances_iff_distinctNames _ _).mp (h twoModules userContexts)
  have hsame := hnames ⟨0, .cls "orders.UserContext", .request, ""⟩ (by decide)
    ⟨1, .cls "billing.UserContext", .request, ""⟩ (by decide) rfl rfl rfl
  exact absurd hsame (by decide)

end PyFly.Container
