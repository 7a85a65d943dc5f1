import PyFly.PublishedBeans

/-!
# Held beans

While beans are resolved the container only stores new beans, each for one
registration.  The table of the registrations therefore holds a bean which it
had before as often as then, and a new one at most once.
-/

namespace PyFly.Container

open Library List

variable {κ ε : Type}

structure Stores (before after : Beans κ) : Prop where
  next : before.nextBean ≤ after.nextBean
  kept : Grows before after
  added : ∀ id bean, after.instances id = some bean → before.instances id = some bean ∨
      before.instances id = none ∧ before.nextBean ≤ bean.id ∧ bean.id < after.nextBean
  separate : ∀ id id' bean, after.instances id = some bean →
    after.instances id' = some bean → before.instances id = none →
      before.instances id' = none → id = id'

namespace Stores

theorem of_instances {before after : Beans κ} (hinstances : after.instances = before.instances)
    (hnext : before.nextBean ≤ after.nextBean) : Stores before after := by
  refine ⟨hnext, ?_, ?_, ?_⟩
  · intro id bean h
    rwa [hinstances]
  · intro id bean h
    rw [hinstances] at h
    exact .inl h
  · intro id id' bean h _ hnone
    rw [hinstances, hnone] at h
    cases h

theorem refl (beans : Beans κ) : Stores beans beans :=
  of_instances rfl le_rfl

theorem trans {first second third : Beans κ} (hfirst : Stores first second)
    (hsecond : Stores second third) : Stores first third := by
  have hnext := hfirst.next
  have hnext' := hsecond.next
  refine ⟨hnext.trans hnext', hfirst.kept.trans hsecond.kept, ?_, ?_⟩
  · intro id bean h
    rcases hsecond.added id bean h with hold | ⟨hnone, hlow, hhigh⟩
    · rcases hfirst.added id bean hold with hold | ⟨hnone, hlow, hhigh⟩
      · exact .inl hold
      · exact .inr ⟨hnone, hlow, hhigh.trans_le hnext'⟩
    · refine .inr ⟨?_, hnext.trans hlow, hhigh⟩
      by_contra hsome
      obtain ⟨old, hold⟩ := Option.ne_none_iff_exists'.mp hsome
      rw [hfirst.kept id old hold] at hnone
      cases hnone
  · intro id id' bean h h' hnone hnone'
    rcases hsecond.added id bean h with hmiddle | ⟨hmiddle, hlow, _⟩
    · have hhigh : bean.id < second.nextBean := by
        rcases hfirst.added id bean hmiddle with hold | ⟨_, _, hhigh⟩
        · rw [hnone] at hold
          cases hold
        · exact hhigh
      rcases hsecond.added id' bean h' with hmiddle' | ⟨_, hlow, _⟩
      · exact hfirst.separate id id' bean hmiddle hmiddle' hnone hnone'
      · exact absurd hhigh hlow.not_gt
    · rcases hsecond.added id' bean h' with hmiddle' | ⟨hmiddle', _, _⟩
      · rcases hfirst.added id' bean hmiddle' with hold | ⟨_, _, hhigh⟩
        · rw [hnone'] at hold
          cases hold
        · exact absurd hhigh hlow.not_gt
      · exact hsecond.separate id id' bean h h' hmiddle hmiddle'

/-- A bean whose identity was taken before the state `entered` is stored where
none was held. -/
theorem keep {classes : Classes κ ε} {reg : Registration κ}
    {before entered middle : Beans κ} {bean : Bean κ}
    (hnone : (held classes before reg : Option (Except (Failure κ ε) (Bean κ))) = none)
    (hentered : Stores entered middle)
    (hinstances : entered.instances = before.instances)
    (hlow : before.nextBean ≤ bean.id) (hhigh : bean.id < entered.nextBean) :
    Stores before (Container.keep classes reg bean middle) := by
  have hmiddle : Stores before middle :=
    (of_instances hinstances (hlow.trans hhigh.le)).trans hentered
  unfold Container.keep
  cases hscope : reg.scope with
  | transient => exact hmiddle
  | request => exact hmiddle.trans (of_instances rfl le_rfl)
  | singleton =>
    have hempty : before.instances reg.id = none := by
      simpa [held, hscope] using hnone
    have hgrows := grows_keep hnone hmiddle.kept bean
    simp only [Container.keep, hscope] at hgrows
    -- what is new in `middle` is newer than the bean
    have hyoung : ∀ id, middle.instances id = some bean →
        before.instances id = none → False := by
      intro id h hnone
      rcases hentered.added id bean h with hold | ⟨_, hlow', _⟩
      · rw [hinstances, hnone] at hold
        cases hold
      · exact absurd hhigh hlow'.not_gt
    refine ⟨hmiddle.next, hgrows, ?_, ?_⟩
    · intro id other h
      by_cases hid : id = reg.id
      · subst hid
        simp only [Function.update_self, Option.some.injEq] at h
        subst h
        exact .inr ⟨hempty, hlow, hhigh.trans_le hentered.next⟩
      · simp only [Function.update_of_ne hid] at h
        exact hmiddle.added id other h
    · intro id id' other h h' hnone hnone'
      by_cases hid : id = reg.id <;> by_cases hid' : id' = reg.id
      · exact hid.trans hid'.symm
      · subst hid
        simp only [Function.update_self, Option.some.injEq] at h
        subst h
        simp only [Function.update_of_ne hid'] at h'
        exact (hyoung id' h' hnone').elim
      · subst hid'
        simp only [Function.update_self, Option.some.injEq] at h'
        subst h'
        simp only [Function.update_of_ne hid] at h
        exact (hyoung id h hnone).elim
      · simp only [Function.update_of_ne hid] at h
        simp only [Function.update_of_ne hid'] at h'
        exact hmiddle.separate id id' other h h' hnone hnone'

end Stores

section Resolving

variable [DecidableEq κ] {classes : Classes κ ε} {registry : Registry κ}

theorem stores_perform {resolver : Resolver κ ε} (hresolver : ∀ reg beans reply after,
      resolver reg beans = some (reply, after) → Stores beans after)
    {owner : Option ℕ} {α : Type} {program : Resolving κ ε α}
    (hprogram : Wellformed registry program) {beans : Beans κ}
    {final : Except (Failure κ ε) α × Beans κ}
    (h : Coroutine.perform (answerQuery classes registry resolver owner)
      program beans = some final) :
    Stores beans final.2 := by
  refine Coroutine.perform_relates Stores Stores.refl
    (fun _ _ _ => Stores.trans) ?_ hprogram.serves h
  intro query before reply next _ hanswer
  cases query with
  | config cls field =>
    cases hanswer
    exact Stores.refl before
  | resolve slot key reg =>
    obtain ⟨made, middle, hmade, _, hafter⟩ :=
      answerQuery_resolve_cases hanswer
    have hmiddle := hresolver reg before made middle hmade
    obtain ⟨bean, _, rfl⟩ | ⟨failure, _, rfl⟩ := hafter
    · exact hmiddle.trans (.of_instances rfl le_rfl)
    · exact hmiddle

theorem stores_resolveRegistration (depth : ℕ) (reg : Registration κ)
    (beans : Beans κ) (reply : Except (Failure κ ε) (Bean κ))
    (after : Beans κ)
    (h : resolveRegistration classes registry depth reg beans =
      some (reply, after)) : Stores beans after := by
  induction depth generalizing reg beans reply after with
  | zero => cases h
  | succ depth ih =>
    obtain ⟨bean, _, _, rfl⟩ | ⟨_, _, _, rfl⟩ |
      ⟨hnone, made, middle, hmade, hend⟩ := resolveRegistration_cases h
    · exact .of_instances rfl le_rfl
    · exact .refl _
    · have hentering : Stores beans (enter reg.implType beans) :=
        .of_instances rfl (Nat.le_succ _)
      obtain ⟨_, rfl, rfl⟩ | ⟨_, result, final, hperform, hmade⟩ :=
        createInstance_cases hmade
      · obtain ⟨_, hfailed, _⟩ | ⟨_, _, _, rfl⟩ := hend
        · cases hfailed
        · exact .of_instances rfl le_rfl
      · have hfinal : Stores (enter reg.implType beans) final :=
          stores_perform ih (Wellformed.creation reg.implType) hperform
        have hleft : ∀ event, Stores (enter reg.implType beans)
            (leave reg.implType (final.emit event)) :=
          fun _ => hfinal.trans (.of_instances rfl le_rfl)
        obtain ⟨_, rfl, rfl⟩ | ⟨_, _, rfl, rfl⟩ := hmade
        · obtain ⟨_, hmade, _, rfl⟩ | ⟨_, hfailed, _⟩ := hend
          · cases hmade
            exact (Stores.keep hnone (hleft _) rfl le_rfl
              (Nat.lt_succ_self _)).trans (.of_instances rfl le_rfl)
          · cases hfailed
        · obtain ⟨_, hmade, _⟩ | ⟨_, _, _, rfl⟩ := hend
          · cases hmade
          · have hleft : Stores final (leave reg.implType final) :=
              .of_instances rfl le_rfl
            exact hentering.trans (hfinal.trans hleft)

theorem stores_call {depth : ℕ} {α : Type} {program : Resolving κ ε α}
    (hprogram : Wellformed registry program) {beans : Beans κ}
    {final : Except (Failure κ ε) α × Beans κ}
    (h : call classes registry depth program beans = some final) :
    Stores beans final.2 :=
  stores_perform (stores_resolveRegistration depth) hprogram h

end Resolving

/-! ## The table of the registrations -/

def Registry.instances (registry : Registry κ) (beans : Beans κ) : List (Bean κ) :=
  registry.registrations.values.filterMap fun reg => beans.instances reg.id

def Registry.Holds (registry : Registry κ) (beans : Beans κ) (bean : Bean κ) :
    Prop :=
  ∃ reg ∈ registry.all, beans.instances reg.id = some bean

def Beans.Below (beans : Beans κ) : Prop :=
  ∀ id bean, beans.instances id = some bean → bean.id < beans.nextBean

theorem Stores.below {before after : Beans κ} (h : Stores before after)
    (hbelow : before.Below) : after.Below := by
  intro id bean hafter
  rcases h.added id bean hafter with hold | ⟨_, _, hhigh⟩
  · exact (hbelow id bean hold).trans_le h.next
  · exact hhigh

namespace Registry

variable {registry : Registry κ} {before after : Beans κ} {bean : Bean κ}

theorem holds_of_mem (h : bean ∈ registry.instances before) : registry.Holds before bean := by
  obtain ⟨reg, hreg, hinstance⟩ := mem_filterMap.mp h
  exact ⟨reg, mem_append_left _ hreg, hinstance⟩

theorem Holds.stores (h : registry.Holds before bean)
    (hstores : Stores before after) : registry.Holds after bean := by
  obtain ⟨reg, hreg, hinstance⟩ := h
  exact ⟨reg, hreg, hstores.kept reg.id bean hinstance⟩

theorem nodup_values (registry : Registry κ) : registry.registrations.values.Nodup := by
  refine List.Nodup.of_map Registration.implType ?_
  have hkeys : registry.registrations.values.map Registration.implType =
      registry.registrations.keys := by
    unfold Dict.values Dict.keys
    rw [map_map]
    exact map_congr_left registry.keyed
  rw [hkeys]
  exact registry.registrations.nodupKeys

variable [DecidableEq κ]

theorem count_instances (registry : Registry κ) (beans : Beans κ) (bean : Bean κ) :
    (registry.instances beans).count bean = registry.registrations.values.countP
        fun reg => beans.instances reg.id = some bean := by
  rw [instances, count_filterMap]
  apply countP_congr
  simp

theorem count_of_holds (hstores : Stores before after)
    (hbelow : before.Below) (h : registry.Holds before bean) :
    (registry.instances after).count bean = (registry.instances before).count bean := by
  rw [count_instances, count_instances]
  apply countP_congr
  intro reg _
  simp only [decide_eq_true_eq]
  refine ⟨fun hafter => ?_, hstores.kept reg.id bean⟩
  rcases hstores.added reg.id bean hafter with hold | ⟨_, hlow, _⟩
  · exact hold
  · obtain ⟨other, _, hother⟩ := h
    exact absurd (hbelow other.id bean hother) hlow.not_gt

theorem count_le_one (hstores : Stores before after) (h : ¬ registry.Holds before bean) :
    (registry.instances after).count bean ≤ 1 := by
  rw [count_instances, countP_eq_length_filter]
  have hnodup := registry.nodup_values.filter
    fun reg => decide (after.instances reg.id = some bean)
  have hsame : ∀ reg ∈ registry.registrations.values.filter
      (fun reg => decide (after.instances reg.id = some bean)),
      ∀ other ∈ registry.registrations.values.filter
        (fun reg => decide (after.instances reg.id = some bean)),
        reg = other := by
    intro reg hreg other hother
    simp only [mem_filter, decide_eq_true_eq] at hreg hother
    have hnew : ∀ reg ∈ registry.registrations.values,
        after.instances reg.id = some bean → before.instances reg.id = none := by
      intro reg hmem hinstance
      rcases hstores.added reg.id bean hinstance with hold | ⟨hnone, _⟩
      · exact absurd ⟨reg, mem_append_left _ hmem, hold⟩ h
      · exact hnone
    have hid := hstores.separate reg.id other.id bean hreg.2 hother.2
      (hnew reg hreg.1 hreg.2) (hnew other hother.1 hother.2)
    exact registry.identified reg (mem_append_left _ hreg.1) other
      (mem_append_left _ hother.1) hid
  generalize registry.registrations.values.filter
    (fun reg => decide (after.instances reg.id = some bean)) = holding
    at hnodup hsame ⊢
  match holding with
  | [] => exact Nat.zero_le 1
  | [_] => exact le_rfl
  | first :: second :: rest =>
    have heq := hsame first mem_cons_self second (mem_cons_of_mem _ mem_cons_self)
    exact absurd (heq ▸ mem_cons_self) (nodup_cons.mp hnodup).1

end Registry

section Configuring

variable [DecidableEq κ] {classes : Classes κ ε} {factories : Factories κ ε}
variable {context after : Context κ}

theorem below_file (hbelow : context.beans.Below) {cls : TypeExpr κ}
    {scope : Scope} {name : String} {stored : Option (Bean κ)}
    (hstored : ∀ bean, stored = some bean → bean.id < context.beans.nextBean) :
    (context.file classes cls scope name stored).beans.Below := by
  intro id bean h
  change Function.update context.beans.instances context.registry.nextId
    stored id = some bean at h
  by_cases hid : id = context.registry.nextId
  · rw [hid, Function.update_self] at h
    exact hstored bean h
  · rw [Function.update_of_ne hid] at h
    exact hbelow id bean h

theorem below_publish (hbelow : context.beans.Below) {product : Product κ}
    (hproduct : product.bean.id < context.beans.nextBean) :
    (publish classes context product).beans.Below := by
  have hstored : ∀ bean, product.instance? = some bean → bean.id < context.beans.nextBean := by
    intro bean h
    unfold Product.instance? at h
    split at h
    · cases h
      exact hproduct
    · cases h
  have hfiled : (context.file classes product.bean.type product.scope
      product.name product.instance?).beans.Below := below_file hbelow hstored
  unfold publish
  dsimp only
  split
  · rwa [beans_bindProduct]
  · refine below_file (by rwa [beans_bindProduct]) ?_
    rwa [beans_bindProduct]

variable {depth : ℕ} {result : Except (Failure κ ε) Unit}

theorem below_processMethods {config : TypeExpr κ}
    {methods : List (BeanMethod κ)} (hbelow : context.beans.Below)
    (h : processMethods classes factories depth config methods context =
      some (result, after)) : after.beans.Below := by
  induction methods generalizing context with
  | nil =>
    cases h
    exact hbelow
  | cons method methods ih =>
    rw [processMethods] at h
    cases htype : method.returnType with
    | none =>
      rw [htype] at h
      exact ih hbelow h
    | some returnType =>
      rw [htype] at h
      cases hmake : makeBean classes context.registry factories depth
          config method context.beans with
      | none =>
        rw [hmake] at h
        cases h
      | some made =>
        rw [hmake] at h
        obtain ⟨⟨result, beans⟩, hperformed, rfl⟩ :=
          Option.map_eq_some_iff.mp hmake
        have hstores := stores_perform (stores_resolveRegistration depth)
          (Wellformed.callBeanMethod config method) hperformed
        have hbeans : beans.Below := by
          refine hstores.below ?_
          exact fun id bean hbean =>
            (hbelow id bean hbean).trans (Nat.lt_succ_self _)
        cases result with
        | error failure =>
          cases h
          exact hbeans
        | ok type =>
          refine ih (below_publish hbeans ?_) h
          exact hstores.next

theorem below_processConfiguration {declarations : Declarations κ}
    {cls : TypeExpr κ} (hbelow : context.beans.Below)
    (h : processConfiguration classes factories declarations depth cls
      context = some (result, after)) : after.beans.Below := by
  unfold processConfiguration at h
  cases hcall : call classes context.registry depth
      (resolve classes context.registry .outermost cls) context.beans with
  | none =>
    rw [hcall] at h
    cases h
  | some resolved =>
    rw [hcall] at h
    have hbeans := (stores_call (Wellformed.resolve .outermost cls) hcall).below hbelow
    obtain ⟨resolved, beans⟩ := resolved
    cases resolved with
    | error failure =>
      cases h
      exact hbeans
    | ok config => exact below_processMethods hbeans h

theorem below_processConfigurations {declarations : Declarations κ}
    {auto : Bool} (hbelow : context.beans.Below)
    (h : processConfigurations classes factories declarations depth auto
      context = some (result, after)) : after.beans.Below := by
  unfold processConfigurations at h
  generalize context.registry.registrations.keys.filter
    (fun cls => factories.isConfiguration cls &&
      factories.isAuto cls == auto) = configurations at h
  induction configurations generalizing context with
  | nil =>
    cases h
    exact hbelow
  | cons cls rest ih =>
    rw [processEach] at h
    cases hfirst : processConfiguration classes factories declarations depth cls context with
    | none =>
      rw [hfirst] at h
      cases h
    | some processed =>
      rw [hfirst] at h
      obtain ⟨processed, middle⟩ := processed
      have hmiddle := below_processConfiguration hbelow hfirst
      cases processed with
      | error failure =>
        cases h
        exact hmiddle
      | ok _ => exact ih hmiddle h

end Configuring

end PyFly.Container
