import PyFly.Configurations

/-!
# Published beans

What the registry and the instances are after a registration was filed, and
after a product of a configuration was published.
-/

namespace PyFly.Container

open Library List

variable {κ ε : Type} [DecidableEq κ] {classes : Classes κ ε}
variable {context : Context κ} {cls other : TypeExpr κ}

/-! ## Registrations -/

theorem registrations_file (classes : Classes κ ε) (context : Context κ)
    (cls : TypeExpr κ) (scope : Scope) (name : String)
    (bean : Option (Bean κ)) :
    ∃ reg : Registration κ, reg.id = context.registry.nextId ∧
      reg.implType = cls ∧ reg.scope = (classes.beanScope cls).getD scope ∧
      (context.file classes cls scope name bean).registry.registrations =
        context.registry.registrations.set cls reg :=
  ⟨_, rfl, rfl, rfl, rfl⟩

theorem mem_keys_file {scope : Scope} {name : String} {bean : Option (Bean κ)} :
    other ∈ (context.file classes cls scope name bean).registry.registrations.keys ↔
      other = cls ∨ other ∈ context.registry.registrations.keys := by
  obtain ⟨reg, _, _, _, hset⟩ :=
    registrations_file classes context cls scope name bean
  rw [hset]
  exact Dict.mem_keys_set

@[simp] theorem registrations_bindProduct (product : Product κ)
    (context : Context κ) :
    (context.bindProduct product).registry.registrations = context.registry.registrations := by
  unfold Context.bindProduct
  split <;> rfl

@[simp] theorem beans_bindProduct (product : Product κ)
    (context : Context κ) :
    (context.bindProduct product).beans = context.beans := by
  unfold Context.bindProduct
  split <;> rfl

/-! ## Instances -/

def Stored (context : Context κ) (cls : TypeExpr κ) (scope : Scope)
    (bean : Option (Bean κ)) : Prop :=
  ∃ reg, context.registry.registrations.get? cls = some reg ∧
    reg.scope = scope ∧ context.beans.instances reg.id = bean

theorem Stored.mem_keys {scope : Scope} {bean : Option (Bean κ)}
    (h : Stored context cls scope bean) :
    cls ∈ context.registry.registrations.keys := by
  obtain ⟨reg, hreg, _⟩ := h
  exact Dict.mem_keys_of_get? hreg

theorem stored_file (classes : Classes κ ε) (context : Context κ)
    (cls : TypeExpr κ) (scope : Scope) (name : String)
    (bean : Option (Bean κ)) :
    Stored (context.file classes cls scope name bean) cls
      ((classes.beanScope cls).getD scope) bean := by
  obtain ⟨reg, hid, _, hscope, hset⟩ :=
    registrations_file classes context cls scope name bean
  refine ⟨reg, ?_, hscope, ?_⟩
  · rw [hset, Dict.get?_set_self]
  · rw [hid]
    exact Function.update_self _ _ _

theorem exists_stored (h : cls ∈ context.registry.registrations.keys) :
    ∃ scope bean, Stored context cls scope bean := by
  obtain ⟨reg, hreg⟩ := Dict.mem_keys_iff.mp h
  exact ⟨reg.scope, _, reg, hreg, rfl, rfl⟩

namespace Stored

variable {scope : Scope} {bean : Option (Bean κ)}

theorem unique {scope' : Scope} {bean' : Option (Bean κ)} (h : Stored context cls scope bean)
    (h' : Stored context cls scope' bean') : scope = scope' ∧ bean = bean' := by
  obtain ⟨reg, hreg, rfl, rfl⟩ := h
  obtain ⟨reg', hreg', rfl, rfl⟩ := h'
  obtain rfl : reg = reg' := Option.some.inj (hreg.symm.trans hreg')
  exact ⟨rfl, rfl⟩

theorem file (h : Stored context cls scope bean) (classes : Classes κ ε)
    (hne : cls ≠ other) (scope' : Scope) (name : String) (bean' : Option (Bean κ)) :
    Stored (context.file classes other scope' name bean') cls scope
      bean := by
  obtain ⟨reg, hreg, hscope, hinstance⟩ := h
  obtain ⟨_, _, _, _, hset⟩ :=
    registrations_file classes context other scope' name bean'
  refine ⟨reg, ?_, hscope, ?_⟩
  · rw [hset, Dict.get?_set_of_ne hne]
    exact hreg
  · have hold : reg.id ≠ context.registry.nextId :=
      (context.registry.below reg (Wellformed.mem_all_of_registrations hreg)).ne
    exact (Function.update_of_ne hold _ _).trans hinstance

theorem bindProduct (h : Stored context cls scope bean) (product : Product κ) :
    Stored (context.bindProduct product) cls scope bean := by
  unfold Stored
  rw [registrations_bindProduct, beans_bindProduct]
  exact h

theorem publish (h : Stored context cls scope bean) {product : Product κ}
    (hne : cls ≠ product.bean.type) :
    Stored (publish classes context product) cls scope bean := by
  have hbound := (h.file classes hne product.scope product.name
    product.instance?).bindProduct product
  unfold Container.publish
  dsimp only
  split
  · exact hbound
  · rename_i hfree
    refine hbound.file classes ?_ _ _ _
    rintro rfl
    exact hfree hbound.mem_keys

end Stored

theorem stored_publish (product : Product κ) :
    Stored (publish classes context product) product.bean.type
      ((classes.beanScope product.bean.type).getD product.scope)
      product.instance? := by
  have hbound := (stored_file classes context product.bean.type product.scope
    product.name product.instance?).bindProduct product
  unfold publish
  dsimp only
  split
  · exact hbound
  · rename_i hfree
    refine hbound.file classes ?_ _ _ _
    intro hsame
    exact hfree (hsame ▸ hbound.mem_keys)

theorem mem_keys_publish {product : Product κ} :
    cls ∈ (publish classes context product).registry.registrations.keys ↔
      cls = product.bean.type ∨ cls = product.returnType ∨
        cls ∈ context.registry.registrations.keys := by
  unfold publish
  dsimp only
  split
  · rename_i hkey
    rw [registrations_bindProduct, mem_keys_file] at hkey ⊢
    constructor
    · exact fun h => h.imp_right .inr
    · rintro (h | rfl | h)
      · exact .inl h
      · exact hkey
      · exact .inr h
  · rw [mem_keys_file, registrations_bindProduct, mem_keys_file]
    exact or_left_comm

theorem stored_publish_returnType {product : Product κ}
    (hne : product.returnType ≠ product.bean.type)
    (hfree : product.returnType ∉ context.registry.registrations.keys) :
    Stored (publish classes context product) product.returnType
      ((classes.beanScope product.returnType).getD product.scope)
      product.instance? := by
  have hkey : product.returnType ∉ ((context.file classes product.bean.type
      product.scope product.name product.instance?).bindProduct
        product).registry.registrations.keys := by
    rw [registrations_bindProduct, mem_keys_file, not_or]
    exact ⟨hne, hfree⟩
  unfold publish
  dsimp only
  rw [if_neg hkey]
  exact stored_file classes _ product.returnType product.scope "" product.instance?

section Order

variable {order : List (Product κ)}

theorem Stored.foldl_publish {scope : Scope} {bean : Option (Bean κ)}
    (h : Stored context cls scope bean)
    (hne : ∀ product ∈ order, product.bean.type ≠ cls) :
    Stored (order.foldl (Container.publish classes) context) cls scope
      bean := by
  induction order generalizing context with
  | nil => exact h
  | cons product order ih =>
    obtain ⟨hfirst, hrest⟩ := forall_mem_cons.mp hne
    exact ih (h.publish (Ne.symm hfirst)) hrest

theorem stored_foldl_publish_type (classes : Classes κ ε) (context : Context κ)
    (h : ∃ product ∈ order, product.bean.type = cls) :
    ∃ product ∈ order, product.bean.type = cls ∧
      Stored (order.foldl (publish classes) context) cls
        ((classes.beanScope cls).getD product.scope) product.instance? := by
  induction order using List.reverseRecOn with
  | nil =>
    obtain ⟨product, hproduct, _⟩ := h
    cases hproduct
  | append_singleton order last ih =>
    rw [foldl_append, foldl_cons, foldl_nil]
    by_cases hlast : last.bean.type = cls
    · refine ⟨last, by simp, hlast, ?_⟩
      rw [← hlast]
      exact stored_publish last
    · have hbefore : ∃ product ∈ order, product.bean.type = cls := by
        obtain ⟨product, hproduct, htype⟩ := h
        obtain hold | hnew := mem_append.mp hproduct
        · exact ⟨product, hold, htype⟩
        · rw [mem_singleton] at hnew
          exact absurd (hnew ▸ htype) hlast
      obtain ⟨product, hproduct, htype, hstored⟩ := ih hbefore
      exact ⟨product, mem_append_left _ hproduct, htype, hstored.publish (Ne.symm hlast)⟩

theorem stored_foldl_publish_returnType (classes : Classes κ ε) {product : Product κ}
    (hfree : product.returnType ∉ context.registry.registrations.keys)
    (hne : ∀ other ∈ product :: order, other.bean.type ≠ product.returnType) :
    Stored ((product :: order).foldl (publish classes) context) product.returnType
      ((classes.beanScope product.returnType).getD product.scope)
      product.instance? := by
  obtain ⟨hfirst, hrest⟩ := forall_mem_cons.mp hne
  exact (stored_publish_returnType (Ne.symm hfirst) hfree).foldl_publish hrest

theorem mem_keys_foldl_publish (h : cls ∈ (order.foldl (publish classes)
      context).registry.registrations.keys) :
    cls ∈ context.registry.registrations.keys ∨ ∃ product ∈ order,
        cls = product.bean.type ∨ cls = product.returnType := by
  induction order generalizing context with
  | nil => exact .inl h
  | cons product order ih =>
    obtain hbefore | ⟨other, hother, htype⟩ := ih h
    · obtain hbean | hreturn | hold := mem_keys_publish.mp hbefore
      · exact .inr ⟨product, mem_cons_self, .inl hbean⟩
      · exact .inr ⟨product, mem_cons_self, .inr hreturn⟩
      · exact .inl hold
    · exact .inr ⟨other, mem_cons_of_mem _ hother, htype⟩

end Order

end PyFly.Container
