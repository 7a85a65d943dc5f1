import PyFly.ConditionEvaluator

/-!
# Scanning

The scanner registers the classes it finds and binds them to their interfaces.
A script is all that is registered and bound before the context starts.  What
the passes of the context remove is compared with a script which leaves out the
steps of the removed classes.
-/

namespace PyFly.Container

open Library List

variable {κ ε : Type}

/-- What `_auto_bind_interfaces` asks of classes. -/
structure Interfaces (κ : Type) where
  /-- `inspect.getmro(cls)[1:]` -/
  bases : TypeExpr κ → List (TypeExpr κ)
  object : TypeExpr κ
  abc : TypeExpr κ
  /-- `typing.Protocol` -/
  protocol : TypeExpr κ
  /-- `_is_protocol`, or false. -/
  protocolFlag : TypeExpr κ → Bool
  /-- `inspect.isabstract` -/
  isAbstract : TypeExpr κ → Bool
  /-- `__module__` -/
  moduleName : TypeExpr κ → List Char

namespace Interfaces

variable [DecidableEq κ] (interfaces : Interfaces κ)

def isProtocol (cls : TypeExpr κ) : Bool :=
  interfaces.protocolFlag cls && cls ≠ interfaces.protocol

def isPort (cls : TypeExpr κ) : Bool :=
  decide (['.', 'p', 'o', 'r', 't', 's'] <:+: interfaces.moduleName cls) ||
    decide (interfaces.abc ∈ cls :: interfaces.bases cls)

/-- The classes `_auto_bind_interfaces` binds a class to. -/
def ports (cls : TypeExpr κ) : List (TypeExpr κ) :=
  (interfaces.bases cls).filter fun base =>
    base ≠ interfaces.object &&
      (interfaces.isProtocol base || interfaces.isAbstract base || interfaces.isPort base)

end Interfaces

/-- A step of a script: a class found by the scanner, a class which is
registered, or a binding. -/
inductive Introduction (κ : Type)
  | scanned (cls : TypeExpr κ)
  | registered (cls : TypeExpr κ) (scope : Scope)
  | bound (interface implementation : TypeExpr κ)
  deriving DecidableEq, Repr

def Introduction.implementation : Introduction κ → TypeExpr κ
  | .scanned cls => cls
  | .registered cls _ => cls
  | .bound _ implementation => implementation

def Introduction.scope (classes : Classes κ ε) : Introduction κ → Scope
  | .scanned cls => (classes.beanScope cls).getD .singleton
  | .registered _ scope => scope
  | .bound _ _ => .singleton

section Scripts

variable [DecidableEq κ] (classes : Classes κ ε) (interfaces : Interfaces κ)

def autoBindInterfaces (cls : TypeExpr κ) (registry : Registry κ) : Registry κ :=
  (interfaces.ports cls).foldl (fun registry port => bind port cls registry) registry

def introduce (registry : Registry κ) : Introduction κ → Registry κ
  | .scanned cls =>
    autoBindInterfaces interfaces cls
      (register classes cls ((classes.beanScope cls).getD .singleton)
        (classes.beanName cls) registry)
  | .registered cls scope => register classes cls scope "" registry
  | .bound interface implementation =>
    bind interface implementation registry

def introduceAll (script : List (Introduction κ)) : Registry κ :=
  script.foldl (introduce classes interfaces) Registry.empty

def Registry.advance (registry : Registry κ) : Registry κ where
  registrations := registry.registrations
  named := registry.named
  bindings := registry.bindings
  nextId := registry.nextId + 1
  keyed := registry.keyed
  below reg hreg :=
    (registry.below reg hreg).trans (Nat.lt_succ_self registry.nextId)
  identified := registry.identified

def introduceWithout (removed : List (TypeExpr κ)) (registry : Registry κ)
    (step : Introduction κ) : Registry κ :=
  if step.implementation ∈ removed then
    match step with
    | .bound _ _ => registry
    | _ => registry.advance
  else introduce classes interfaces registry step

def introduceAllWithout (removed : List (TypeExpr κ))
    (script : List (Introduction κ)) : Registry κ :=
  script.foldl (introduceWithout classes interfaces removed) Registry.empty

def Registry.impls (registry : Registry κ) (type : TypeExpr κ) : List (TypeExpr κ) :=
  (registry.bindings.get? type).getD []

variable {classes interfaces}

/-! ## Effects of the steps -/

theorem impls_bind (interface implementation : TypeExpr κ)
    (registry : Registry κ) (type : TypeExpr κ) :
    (bind interface implementation registry).impls type =
      if type = interface ∧ implementation ∉ registry.impls type then
        registry.impls type ++ [implementation]
      else registry.impls type := by
  unfold Registry.impls bind
  by_cases htype : type = interface
  · subst htype
    by_cases hmem : implementation ∈ (registry.bindings.get? type).getD []
    · simp [hmem]
    · simp [hmem]
  · simp [htype, Dict.get?_set_of_ne htype]

/-- The registration `register` makes of a class. -/
def registrationOf (classes : Classes κ ε) (cls : TypeExpr κ) (scope : Scope)
    (id : ℕ) : Registration κ where
  id := id
  implType := cls
  scope := (classes.beanScope cls).getD scope
  name := classes.beanName cls

structure Files (classes : Classes κ ε) (cls : TypeExpr κ) (scope : Scope)
    (before after : Registry κ) : Prop where
  registrations : after.registrations = before.registrations.set cls
    (registrationOf classes cls scope before.nextId)
  named : after.named = if classes.beanName cls = "" then before.named
    else before.named.set (classes.beanName cls)
      (registrationOf classes cls scope before.nextId)
  nextId : after.nextId = before.nextId + 1

theorem files_register (classes : Classes κ ε) (cls : TypeExpr κ)
    (scope : Scope) {name : String}
    (hname : name = "" ∨ name = classes.beanName cls)
    (registry : Registry κ) :
    Files classes cls scope registry (register classes cls scope name registry) := by
  have hbean : (if name = "" then classes.beanName cls else name) =
      classes.beanName cls := by
    obtain rfl | rfl := hname
    · exact if_pos rfl
    · exact ite_self _
  constructor
  · simp only [register, hbean]
    rfl
  · simp only [register, hbean]
    rfl
  · rfl

theorem autoBindInterfaces_frame (interfaces : Interfaces κ)
    (cls : TypeExpr κ) (registry : Registry κ) :
    (autoBindInterfaces interfaces cls registry).registrations = registry.registrations ∧
      (autoBindInterfaces interfaces cls registry).named = registry.named ∧
      (autoBindInterfaces interfaces cls registry).nextId = registry.nextId := by
  unfold autoBindInterfaces
  induction interfaces.ports cls generalizing registry with
  | nil => exact ⟨rfl, rfl, rfl⟩
  | cons port ports ih => exact ih (bind port cls registry)

/-! ## Steps which are left out -/

structure Follows (removed : List (TypeExpr κ))
    (registry reference : Registry κ) : Prop where
  nextId : reference.nextId = registry.nextId
  registrations : reference.registrations =
    registry.registrations.restrict fun cls => cls ∉ removed
  impls : ∀ type, reference.impls type = (registry.impls type).filter fun cls => cls ∉ removed

namespace Follows

variable {removed : List (TypeExpr κ)} {registry reference : Registry κ}

theorem bind_of_mem (h : Follows removed registry reference)
    {implementation : TypeExpr κ} (hmem : implementation ∈ removed)
    (interface : TypeExpr κ) :
    Follows removed (bind interface implementation registry) reference where
  nextId := h.nextId
  registrations := h.registrations
  impls type := by
    rw [impls_bind, h.impls]
    split
    · simp [filter_append, hmem]
    · rfl

theorem bind_of_not_mem (h : Follows removed registry reference)
    {implementation : TypeExpr κ} (hmem : implementation ∉ removed)
    (interface : TypeExpr κ) :
    Follows removed (bind interface implementation registry)
      (bind interface implementation reference) where
  nextId := h.nextId
  registrations := h.registrations
  impls type := by
    rw [impls_bind, impls_bind, h.impls]
    have hiff : implementation ∈ ((registry.impls type).filter fun cls => cls ∉ removed) ↔
          implementation ∈ registry.impls type := by
      simp [hmem]
    simp only [hiff]
    split
    · simp [filter_append, hmem]
    · rfl

theorem file_of_mem (h : Follows removed registry reference)
    {cls : TypeExpr κ} (hmem : cls ∈ removed) {scope : Scope}
    {after : Registry κ} (hfiles : Files classes cls scope registry after)
    (himpls : ∀ type, after.impls type = registry.impls type) :
    Follows removed after reference.advance where
  nextId := by
    rw [hfiles.nextId, ← h.nextId]
    rfl
  registrations := by
    rw [hfiles.registrations, Dict.restrict_set_of_neg (by simpa using hmem)]
    exact h.registrations
  impls type := by
    rw [himpls]
    exact h.impls type

theorem file_of_not_mem (h : Follows removed registry reference)
    {cls : TypeExpr κ} (hmem : cls ∉ removed) {scope : Scope}
    {after after' : Registry κ}
    (hfiles : Files classes cls scope registry after)
    (himpls : ∀ type, after.impls type = registry.impls type)
    (hfiles' : Files classes cls scope reference after')
    (himpls' : ∀ type, after'.impls type = reference.impls type) :
    Follows removed after after' where
  nextId := by rw [hfiles.nextId, hfiles'.nextId, h.nextId]
  registrations := by
    rw [hfiles.registrations, hfiles'.registrations, h.registrations,
      h.nextId, Dict.restrict_set_of_pos (by simpa using hmem)]
  impls type := by
    rw [himpls, himpls']
    exact h.impls type

theorem introduce (h : Follows removed registry reference) (step : Introduction κ) :
    Follows removed (introduce classes interfaces registry step)
      (introduceWithout classes interfaces removed reference step) := by
  unfold introduceWithout
  by_cases hmem : step.implementation ∈ removed
  · rw [if_pos hmem]
    cases step with
    | bound interface implementation => exact h.bind_of_mem hmem interface
    | registered cls scope =>
      exact h.file_of_mem hmem
        (files_register classes cls scope (.inl rfl) registry) fun _ => rfl
    | scanned cls =>
      have hfiled := h.file_of_mem hmem
        (files_register classes cls ((classes.beanScope cls).getD .singleton)
          (.inr rfl) registry) fun _ => rfl
      show Follows removed (autoBindInterfaces interfaces cls _) _
      unfold autoBindInterfaces
      generalize register classes cls _ _ registry = filed at hfiled
      induction interfaces.ports cls generalizing filed with
      | nil => exact hfiled
      | cons port ports ih => exact ih _ (hfiled.bind_of_mem hmem port)
  · rw [if_neg hmem]
    cases step with
    | bound interface implementation => exact h.bind_of_not_mem hmem interface
    | registered cls scope =>
      exact h.file_of_not_mem hmem
        (files_register classes cls scope (.inl rfl) registry) (fun _ => rfl)
        (files_register classes cls scope (.inl rfl) reference) fun _ => rfl
    | scanned cls =>
      have hfiled := h.file_of_not_mem hmem
        (files_register classes cls ((classes.beanScope cls).getD .singleton)
          (.inr rfl) registry) (fun _ => rfl)
        (files_register classes cls ((classes.beanScope cls).getD .singleton)
          (.inr rfl) reference) fun _ => rfl
      show Follows removed (autoBindInterfaces interfaces cls _)
        (autoBindInterfaces interfaces cls _)
      unfold autoBindInterfaces
      generalize register classes cls _ _ registry = filed at hfiled
      generalize register classes cls _ _ reference = filed' at hfiled
      induction interfaces.ports cls generalizing filed filed' with
      | nil => exact hfiled
      | cons port ports ih =>
        exact ih _ _ (hfiled.bind_of_not_mem hmem port)

end Follows

theorem follows_introduceAll (classes : Classes κ ε)
    (interfaces : Interfaces κ) (removed : List (TypeExpr κ))
    (script : List (Introduction κ)) :
    Follows removed (introduceAll classes interfaces script)
      (introduceAllWithout classes interfaces removed script) := by
  have hsteps : ∀ registry reference : Registry κ, Follows removed registry reference →
        Follows removed (script.foldl (introduce classes interfaces) registry)
          (script.foldl (introduceWithout classes interfaces removed) reference) := by
    induction script with
    | nil => exact fun _ _ h => h
    | cons step script ih =>
      intro registry reference h
      exact ih _ _ (h.introduce step)
  exact hsteps _ _ ⟨rfl, rfl, fun _ => rfl⟩

/-! ## Names -/

structure Tidy (classes : Classes κ ε) (registry : Registry κ) : Prop where
  own : ∀ item ∈ registry.registrations.items, item.2.name = classes.beanName item.1
  named : ∀ name ∈ registry.named.keys, name ≠ ""

structure Filed (classes : Classes κ ε) (registry : Registry κ) : Prop
    extends Tidy classes registry where
  found : ∀ cls ∈ registry.registrations.keys, classes.beanName cls ≠ "" →
    classes.beanName cls ∈ registry.named.keys

theorem Filed.file {registry after : Registry κ}
    (h : Filed classes registry) {cls : TypeExpr κ} {scope : Scope}
    (hfiles : Files classes cls scope registry after) :
    Filed classes after where
  own item hitem := by
    rw [hfiles.registrations] at hitem
    obtain rfl | hold := Dict.mem_items_set hitem
    · rfl
    · exact h.own item hold
  named name hname := by
    rw [hfiles.named] at hname
    split at hname
    · exact h.named name hname
    · rename_i hbean
      obtain rfl | hold := Dict.mem_keys_set.mp hname
      · exact hbean
      · exact h.named name hold
  found other hother hbean := by
    rw [hfiles.registrations] at hother
    rw [hfiles.named]
    obtain rfl | hold := Dict.mem_keys_set.mp hother
    · rw [if_neg hbean]
      exact Dict.mem_keys_set.mpr (.inl rfl)
    · split
      · exact h.found other hold hbean
      · exact Dict.mem_keys_set.mpr (.inr (h.found other hold hbean))

omit [DecidableEq κ] in
theorem Filed.congr {registry after : Registry κ} (h : Filed classes registry)
    (hregistrations : after.registrations = registry.registrations)
    (hnamed : after.named = registry.named) : Filed classes after where
  own := by
    rw [hregistrations]
    exact h.own
  named := by
    rw [hnamed]
    exact h.named
  found := by
    rw [hregistrations, hnamed]
    exact h.found

theorem Filed.introduce {registry : Registry κ}
    (h : Filed classes registry) (step : Introduction κ) :
    Filed classes (introduce classes interfaces registry step) := by
  cases step with
  | bound interface implementation => exact h.congr rfl rfl
  | registered cls scope =>
    exact h.file (files_register classes cls scope (.inl rfl) registry)
  | scanned cls =>
    have hfiled := h.file (files_register classes cls
      ((classes.beanScope cls).getD .singleton) (.inr rfl) registry)
    obtain ⟨hregistrations, hnamed, _⟩ :=
      autoBindInterfaces_frame interfaces cls
        (register classes cls ((classes.beanScope cls).getD .singleton)
          (classes.beanName cls) registry)
    exact hfiled.congr hregistrations hnamed

omit [DecidableEq κ] in
theorem filed_empty : Filed classes (Registry.empty : Registry κ) where
  own := by
    intro item hitem
    cases hitem
  named := by
    intro name hname
    cases hname
  found := by
    intro cls hcls
    cases hcls

theorem filed_introduceAll (script : List (Introduction κ)) :
    Filed classes (introduceAll classes interfaces script) := by
  unfold introduceAll
  have hstart : Filed classes (Registry.empty : Registry κ) := filed_empty
  generalize (Registry.empty : Registry κ) = registry at hstart
  induction script generalizing registry with
  | nil => exact hstart
  | cons step script ih => exact ih _ (hstart.introduce step)

theorem filed_introduceAllWithout (removed : List (TypeExpr κ))
    (script : List (Introduction κ)) :
    Filed classes (introduceAllWithout classes interfaces removed script) := by
  unfold introduceAllWithout
  have hstart : Filed classes (Registry.empty : Registry κ) := filed_empty
  generalize (Registry.empty : Registry κ) = registry at hstart
  induction script generalizing registry with
  | nil => exact hstart
  | cons step script ih =>
    refine ih _ ?_
    unfold introduceWithout
    split
    · split
      · exact hstart
      · exact hstart.congr rfl rfl
    · exact hstart.introduce step

def Unshared (classes : Classes κ ε) (removed : List (TypeExpr κ))
    (registry : Registry κ) : Prop :=
  ∀ cls ∈ registry.registrations.keys, cls ∉ removed →
    classes.beanName cls ≠ "" → classes.beanName cls ∉ removed.map classes.beanName

variable {step : Introduction κ}

theorem introduce_files (classes : Classes κ ε) (interfaces : Interfaces κ)
    (h : ∀ interface implementation, step ≠ .bound interface implementation)
    (registry : Registry κ) :
    Files classes step.implementation (step.scope classes) registry
      (introduce classes interfaces registry step) := by
  cases step with
  | bound interface implementation => exact absurd rfl (h _ _)
  | registered cls scope =>
    exact files_register classes cls scope (.inl rfl) registry
  | scanned cls =>
    have hfiles := files_register classes cls
      ((classes.beanScope cls).getD .singleton) (.inr rfl) registry
    obtain ⟨hregistrations, hnamed, hnext⟩ :=
      autoBindInterfaces_frame interfaces cls
        (register classes cls ((classes.beanScope cls).getD .singleton)
          (classes.beanName cls) registry)
    exact ⟨hregistrations.trans hfiles.registrations,
      hnamed.trans hfiles.named, hnext.trans hfiles.nextId⟩

theorem introduceWithout_of_not_mem {removed : List (TypeExpr κ)}
    (h : step.implementation ∉ removed) (reference : Registry κ) :
    introduceWithout classes interfaces removed reference step =
      introduce classes interfaces reference step :=
  if_neg h

theorem named_introduceWithout_of_mem {removed : List (TypeExpr κ)}
    (h : step.implementation ∈ removed) (reference : Registry κ) :
    (introduceWithout classes interfaces removed reference step).named = reference.named := by
  unfold introduceWithout
  rw [if_pos h]
  cases step <;> rfl

theorem named_step {removed : List (TypeExpr κ)} (hstep : ∀ interface implementation,
      step ≠ .bound interface implementation) {registry reference : Registry κ}
    (h : Unshared classes removed (introduce classes interfaces registry step))
    (hnext : reference.nextId = registry.nextId)
    (hnamed : reference.named = registry.named.restrict
      fun name => name ∉ removed.map classes.beanName) :
    (introduceWithout classes interfaces removed reference step).named =
      (introduce classes interfaces registry step).named.restrict
        fun name => name ∉ removed.map classes.beanName := by
  have hfiles := introduce_files classes interfaces hstep registry
  by_cases hmem : step.implementation ∈ removed
  · rw [named_introduceWithout_of_mem hmem, hnamed, hfiles.named]
    split
    · rfl
    · rw [Dict.restrict_set_of_neg]
      simpa using ⟨step.implementation, hmem, rfl⟩
  · have hkey : step.implementation ∈
        (introduce classes interfaces registry step).registrations.keys := by
      rw [hfiles.registrations]
      exact Dict.mem_keys_set.mpr (.inl rfl)
    rw [introduceWithout_of_not_mem hmem,
      (introduce_files classes interfaces hstep reference).named, hfiles.named, hnamed, hnext]
    split
    · rfl
    · rename_i hbean
      rw [Dict.restrict_set_of_pos]
      simpa using h _ hkey hmem hbean

theorem named_introduceAllWithout {removed : List (TypeExpr κ)} {script : List (Introduction κ)}
    (h : Unshared classes removed (introduceAll classes interfaces script)) :
    (introduceAllWithout classes interfaces removed script).named =
      (introduceAll classes interfaces script).named.restrict
        fun name => name ∉ removed.map classes.beanName := by
  induction script using List.reverseRecOn with
  | nil => rfl
  | append_singleton script step ih =>
    have hfollows := follows_introduceAll classes interfaces removed script
    simp only [introduceAll, introduceAllWithout, foldl_append,
      foldl_cons, foldl_nil] at h ih hfollows ⊢
    generalize script.foldl (introduce classes interfaces) Registry.empty =
      registry at h ih hfollows ⊢
    generalize script.foldl (introduceWithout classes interfaces removed)
      Registry.empty = reference at ih hfollows ⊢
    by_cases hstep : ∃ interface implementation, step = .bound interface implementation
    · obtain ⟨interface, implementation, rfl⟩ := hstep
      have hnamed := ih h
      by_cases hmem : implementation ∈ removed
      · rw [named_introduceWithout_of_mem hmem]
        exact hnamed
      · rw [introduceWithout_of_not_mem hmem]
        exact hnamed
    · push Not at hstep
      have hfiles := introduce_files classes interfaces hstep registry
      have hbefore : Unshared classes removed registry := by
        intro cls hcls
        refine h cls ?_
        rw [hfiles.registrations]
        exact Dict.mem_keys_set.mpr (.inr hcls)
      exact named_step hstep h hfollows.nextId (ih hbefore)

end Scripts

end PyFly.Container
