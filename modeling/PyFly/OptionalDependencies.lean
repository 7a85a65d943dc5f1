import PyFly.Resolution

/-!
# Optional dependencies

A parameter which is optional, or which has a default, falls back when the
resolution of its type fails for want of a bean.  It is not told whether the
bean of the parameter is wanting or one which that bean depends on.
-/

namespace PyFly.Container

open Library List

variable {κ ε : Type}

def Failure.Missing : Failure κ ε → Prop
  | .noSuchBean _ => True
  | .noUniqueBean _ _ => True
  | _ => False

theorem missing_noSuchBean (error : NoSuchBean κ) :
    (Failure.noSuchBean error : Failure κ ε).Missing :=
  trivial

theorem missing_noUniqueBean (type : TypeExpr κ) (candidates : List (TypeExpr κ)) :
    (Failure.noUniqueBean type candidates : Failure κ ε).Missing :=
  trivial

def Untroubled {α : Type} (result : Except (Failure κ ε) α) : Prop :=
  ∀ failure, result = .error failure → ¬ failure.Missing

theorem exceptMissing_of_missing {α : Type} {handler : Resolving κ ε α}
    {failure : Failure κ ε} (h : failure.Missing) :
    exceptMissing handler failure = handler := by
  cases failure with
  | noSuchBean error => rfl
  | noUniqueBean type candidates => rfl
  | _ => exact h.elim

theorem exceptMissing_of_not_missing {α : Type}
    {handler : Resolving κ ε α} {failure : Failure κ ε}
    (h : ¬ failure.Missing) :
    exceptMissing handler failure = Async.throw failure := by
  cases failure with
  | noSuchBean error => exact absurd trivial h
  | noUniqueBean type candidates => exact absurd trivial h
  | _ => rfl

/-! ## Dependencies -/

inductive Sought (κ : Type)
  | type (type : TypeExpr κ)
  | name (name : String)
  | all (item : TypeExpr κ)
  | nothing
  deriving DecidableEq, Repr

namespace TypeExpr

/-- What `_resolve_param` looks for. -/
def sought : TypeExpr κ → Sought κ
  | .annotated _ (some name) => .name name
  | .annotated base none => base.sought
  | .optional inner => .type inner
  | .listOf item => .all item
  | .classRef _ => .nothing
  | .cls name => .type (.cls name)

def isOptional : TypeExpr κ → Bool
  | .annotated base none => base.isOptional
  | .optional _ => true
  | _ => false

end TypeExpr

/-- What a class needs, and whether it can do without. -/
structure Dependency (κ : Type) where
  sought : Sought κ
  required : Bool
  deriving DecidableEq, Repr

def Parameter.dependency (parameter : Parameter κ) : Dependency κ where
  sought := parameter.type.sought
  required := !(parameter.type.isOptional || parameter.hasDefault)

def Field.dependency (field : Field κ) : Option (Dependency κ) :=
  match field.mark with
  | .value => none
  | .autowired (some name) _ => some ⟨.name name, true⟩
  | .autowired none required =>
    match field.type with
    | .annotated base qualifier =>
      some ⟨(TypeExpr.annotated base qualifier).sought,
        !(TypeExpr.annotated base qualifier).isOptional⟩
    | type => some ⟨.type type, required⟩

def dependencies (classes : Classes κ ε) (cls : TypeExpr κ) : List (Dependency κ) :=
  (match classes.parameters cls with
    | .ok parameters => parameters.map Parameter.dependency
    | .error _ => []) ++
  ((classes.fields cls).getD []).filterMap Field.dependency

section Choice

variable [DecidableEq κ] (classes : Classes κ ε) (registry : Registry κ)

def Registry.Registered : Sought κ → Prop
  | .type type =>
    registry.registrations.get? type ≠ none ∨ (registry.bindings.get? type).getD [] ≠ []
  | .name name => registry.named.get? name ≠ none
  | .all item => (registry.bindings.get? item).getD [] ≠ []
  | .nothing => False

def chosen : Sought κ → Option (List (Registration κ))
  | .type type =>
    match registry.registrations.get? type with
    | some reg => some [reg]
    | none =>
      match (registry.bindings.get? type).getD [] with
      | [] => none
      | [impl] => some (registry.registrations.get? impl).toList
      | impls =>
        (impls.find? classes.isPrimary).map fun impl =>
          (registry.registrations.get? impl).toList
  | .name name => (registry.named.get? name).map fun reg => [reg]
  | .all item =>
    some (((registry.bindings.get? item).getD []).filterMap registry.registrations.get?)
  | .nothing => none

/-- A registration which has yet to be created, and for which a required
dependency is missing or ambiguous, directly or further down. -/
inductive Deficient (beans : Beans κ) : Registration κ → Prop
  | here {reg : Registration κ} {dependency : Dependency κ}
      (hnone : (held classes beans reg : Option (Except (Failure κ ε) (Bean κ))) = none)
      (hmem : dependency ∈ dependencies classes reg.implType)
      (hrequired : dependency.required = true)
      (hmissing : chosen classes registry dependency.sought = none) :
      Deficient beans reg
  | through {reg other : Registration κ} {dependency : Dependency κ}
      {regs : List (Registration κ)}
      (hnone : (held classes beans reg : Option (Except (Failure κ ε) (Bean κ))) = none)
      (hmem : dependency ∈ dependencies classes reg.implType)
      (hchosen : chosen classes registry dependency.sought = some regs)
      (hother : other ∈ regs) (hdeficient : Deficient beans other) :
      Deficient beans reg

end Choice

section Programs

variable {fine : Registration κ → Prop}

def AsksFor (fine : Registration κ → Prop) : Query κ → Prop
  | .resolve _ _ reg => fine reg
  | .config _ _ => True

def Served {α : Type} (fine : Registration κ → Prop)
    (ends : Except (Failure κ ε) α → Prop) (program : Resolving κ ε α) :
    Prop :=
  Async.Respects (AsksFor fine) Untroubled ends program

theorem served_throw {α : Type} {failure : Failure κ ε} (h : ¬ failure.Missing) :
    Served fine Untroubled (Async.throw failure : Resolving κ ε α) := by
  intro other hother
  cases hother
  exact h

variable {α : Type}

theorem served_pure (value : α) : Served fine Untroubled (pure value : Resolving κ ε α) := by
  intro failure hfailure
  cases hfailure

theorem served_bind {β : Type} {program : Resolving κ ε α}
    {next : α → Resolving κ ε β} (hprogram : Served fine Untroubled program)
    (hnext : ∀ value, Served fine Untroubled (next value)) :
    Served fine Untroubled (program >>= next) := by
  refine Async.Respects.bind hprogram (fun value _ => hnext value) ?_
  intro failure hfailure other hother
  cases hother
  exact hfailure failure rfl

variable [DecidableEq κ] {classes : Classes κ ε} {registry : Registry κ}

def Available (classes : Classes κ ε) (registry : Registry κ)
    (fine : Registration κ → Prop) (sought : Sought κ) : Prop :=
  ∃ regs, chosen classes registry sought = some regs ∧ ∀ reg ∈ regs, fine reg

theorem served_resolveImpl (slot : Slot) (key : Key κ) {impl : TypeExpr κ}
    (h : ∀ reg ∈ (registry.registrations.get? impl).toList, fine reg) :
    Served fine Untroubled (resolveImpl registry slot key impl :
        Resolving κ ε (TypeExpr κ)) := by
  unfold resolveImpl
  cases hreg : registry.registrations.get? impl with
  | none => exact served_throw id
  | some reg =>
    rw [hreg] at h
    exact ⟨h reg (by simp), fun reply hreply => hreply⟩

variable {type : TypeExpr κ}

theorem served_resolve (slot : Slot) (h : Available classes registry fine (.type type)) :
    Served fine Untroubled (resolve classes registry slot type) := by
  obtain ⟨regs, hchosen, hfine⟩ := h
  unfold resolve
  unfold chosen at hchosen
  cases hreg : registry.registrations.get? type with
  | some reg =>
    simp only [hreg] at hchosen
    cases hchosen
    exact ⟨hfine reg (by simp), fun reply hreply => hreply⟩
  | none =>
    simp only [hreg] at hchosen
    dsimp only
    revert hchosen
    cases (registry.bindings.get? type).getD [] with
    | nil => exact nofun
    | cons impl rest =>
      intro hchosen
      cases rest with
      | nil =>
        obtain rfl := Option.some.inj hchosen
        exact served_resolveImpl slot _ hfine
      | cons second rest =>
        dsimp only at hchosen ⊢
        obtain ⟨primary, hprimary, rfl⟩ :=
          Option.map_eq_some_iff.mp hchosen
        simp only [hprimary]
        exact served_resolveImpl slot _ hfine

theorem resolve_of_none (slot : Slot) (h : chosen classes registry (.type type) = none) :
    ∃ failure : Failure κ ε, failure.Missing ∧
      resolve classes registry slot type = Async.throw failure := by
  unfold chosen at h
  unfold resolve
  cases hreg : registry.registrations.get? type with
  | some reg =>
    simp only [hreg] at h
    cases h
  | none =>
    simp only [hreg] at h
    dsimp only
    revert h
    cases (registry.bindings.get? type).getD [] with
    | nil => exact fun _ => ⟨_, missing_noSuchBean _, rfl⟩
    | cons impl rest =>
      intro h
      cases rest with
      | nil => cases h
      | cons second rest =>
        dsimp only at h ⊢
        have hprimary := Option.map_eq_none_iff.mp h
        simp only [hprimary]
        exact ⟨_, missing_noUniqueBean _ _, rfl⟩

theorem served_resolveByName (slot : Slot) {name : String}
    (h : Available classes registry fine (.name name)) :
    Served fine Untroubled (resolveByName registry slot name : Resolving κ ε (TypeExpr κ)) := by
  obtain ⟨regs, hchosen, hfine⟩ := h
  obtain ⟨reg, hreg, hregs⟩ := Option.map_eq_some_iff.mp hchosen
  subst hregs
  unfold resolveByName
  rw [hreg]
  exact ⟨hfine reg (by simp), fun reply hreply => hreply⟩

theorem served_resolveImpls (slot : Slot) {impls : List (TypeExpr κ)}
    (h : ∀ reg ∈ impls.filterMap registry.registrations.get?, fine reg) :
    Served fine Untroubled (resolveImpls registry slot impls :
        Resolving κ ε (List (TypeExpr κ))) := by
  induction impls with
  | nil => exact served_pure []
  | cons impl impls ih =>
    have hhead : ∀ reg ∈ (registry.registrations.get? impl).toList, fine reg := by
      intro reg hreg
      rw [Option.mem_toList] at hreg
      exact h reg (mem_filterMap.mpr ⟨impl, mem_cons_self, hreg⟩)
    have htail : ∀ reg ∈ impls.filterMap registry.registrations.get?, fine reg := by
      intro reg hreg
      obtain ⟨other, hother, hget⟩ := mem_filterMap.mp hreg
      exact h reg (mem_filterMap.mpr ⟨other, mem_cons_of_mem _ hother, hget⟩)
    exact served_bind (served_resolveImpl slot _ hhead) fun bean =>
      served_bind (ih htail) fun beans => served_pure (bean :: beans)

theorem resolveByName_of_none (slot : Slot) {name : String}
    (h : chosen classes registry (.name name) = none) :
    ∃ failure : Failure κ ε, failure.Missing ∧
      resolveByName registry slot name = Async.throw failure := by
  have hreg := Option.map_eq_none_iff.mp h
  unfold resolveByName
  rw [hreg]
  exact ⟨_, missing_noSuchBean _, rfl⟩

/-- A result other than `None`. -/
def Injected (result : Except (Failure κ ε) (Supplied κ)) : Prop :=
  Untroubled result ∧ result ≠ .ok .none

omit [DecidableEq κ] in
theorem injected_bind {program : Resolving κ ε α} {supply : α → Supplied κ}
    (hprogram : Served fine Untroubled program)
    (hsupply : ∀ value, supply value ≠ .none) :
    Served fine Injected (do return supply (← program)) := by
  refine Async.Respects.bind hprogram ?_ ?_
  · intro value _
    refine ⟨?_, ?_⟩
    · intro failure hfailure
      cases hfailure
    · intro heq
      exact hsupply value (Except.ok.inj heq)
  · intro failure hfailure
    refine ⟨?_, ?_⟩
    · intro other hother
      cases hother
      exact hfailure failure rfl
    · intro heq
      cases heq

theorem served_resolveParam (slot : Slot) (h : Available classes registry fine type.sought) :
    Served fine Injected (resolveParam classes registry slot type) := by
  induction type with
  | cls name =>
    exact injected_bind (served_resolve slot h) fun _ => nofun
  | annotated base qualifier ih =>
    cases qualifier with
    | none => exact ih h
    | some name =>
      exact injected_bind (served_resolveByName slot h) fun _ =>
        nofun
  | optional inner ih =>
    refine Async.Respects.catching (injected_bind (served_resolve slot h) fun _ => nofun)
      (fun _ hvalue => hvalue) ?_
    intro failure hfailure
    rw [exceptMissing_of_not_missing (hfailure.1 failure rfl)]
    exact hfailure
  | listOf item ih =>
    obtain ⟨regs, hchosen, hfine⟩ := h
    cases hchosen
    exact injected_bind (served_resolveImpls slot hfine) fun _ =>
      nofun
  | classRef arg =>
    obtain ⟨regs, hchosen, _⟩ := h
    cases hchosen

theorem resolveParam_of_none (slot : Slot) (h : chosen classes registry type.sought = none) :
    (type.isOptional = true ∧ resolveParam classes registry slot type = pure .none) ∨
    (type.isOptional = false ∧ ∃ failure : Failure κ ε, failure.Missing ∧
      resolveParam classes registry slot type = Async.throw failure) := by
  induction type with
  | cls name =>
    obtain ⟨failure, hmissing, hthrow⟩ :=
      resolve_of_none slot h
    refine .inr ⟨rfl, failure, hmissing, ?_⟩
    rw [resolveParam, hthrow]
    rfl
  | annotated base qualifier ih =>
    cases qualifier with
    | none => exact ih h
    | some name =>
      obtain ⟨failure, hmissing, hthrow⟩ :=
        resolveByName_of_none slot h
      refine .inr ⟨rfl, failure, hmissing, ?_⟩
      rw [resolveParam, hthrow]
      rfl
  | optional inner ih =>
    obtain ⟨failure, hmissing, hthrow⟩ := resolve_of_none slot h
    refine .inl ⟨rfl, ?_⟩
    rw [resolveParam, hthrow]
    exact exceptMissing_of_missing hmissing
  | listOf item ih => cases h
  | classRef arg => exact .inr ⟨rfl, _, missing_noSuchBean _, rfl⟩

/-! ## Parameters and fields -/

/-- An argument other than `None` or a default. -/
def Passed (result : Except (Failure κ ε) (Option (Supplied κ))) : Prop :=
  Untroubled result ∧ result ≠ .ok none ∧ result ≠ .ok (some .none)

variable {parameter : Parameter κ}

theorem passed_resolveParameter (owner : TypeExpr κ)
    (h : Available classes registry fine parameter.type.sought) :
    Served fine Passed (resolveParameter classes registry owner parameter) := by
  have hvalue : Served fine Passed (do
        return some (← resolveParam classes registry
          (.parameter parameter.name) parameter.type)) := by
    refine Async.Respects.bind (served_resolveParam _ h) ?_ ?_
    · intro value hvalue
      refine ⟨?_, nofun, ?_⟩
      · intro failure hfailure
        cases hfailure
      · intro heq
        apply hvalue.2
        rw [Option.some.inj (Except.ok.inj heq)]
    · intro failure hfailure
      refine ⟨?_, nofun, nofun⟩
      intro other hother
      cases hother
      exact hfailure.1 failure rfl
  refine Async.Respects.catching hvalue (fun _ hvalue => hvalue) ?_
  intro failure hfailure
  rw [exceptMissing_of_not_missing (hfailure.1 failure rfl)]
  exact hfailure

theorem resolveParameter_of_none (owner : TypeExpr κ)
    (h : chosen classes registry parameter.type.sought = none) :
    resolveParameter classes registry owner parameter =
      if parameter.type.isOptional then pure (some .none)
      else if parameter.hasDefault then pure none
      else Async.throw (.noSuchBean (parameterError classes registry owner parameter)) := by
  unfold resolveParameter
  obtain ⟨hoptional, hparam⟩ | ⟨hoptional, failure, hmissing, hparam⟩ :=
    resolveParam_of_none (.parameter parameter.name) h
  · rw [hparam, hoptional]
    rfl
  · rw [hparam, hoptional]
    exact exceptMissing_of_missing hmissing

def Satisfied (classes : Classes κ ε) (registry : Registry κ)
    (fine : Registration κ → Prop) (dependency : Dependency κ) : Prop :=
  (dependency.required = true → chosen classes registry dependency.sought ≠ none) ∧
  ∀ regs, chosen classes registry dependency.sought = some regs → ∀ reg ∈ regs, fine reg

theorem Satisfied.available {dependency : Dependency κ}
    (h : Satisfied classes registry fine dependency)
    (hchosen : chosen classes registry dependency.sought ≠ none) :
    Available classes registry fine dependency.sought := by
  obtain ⟨regs, hregs⟩ := Option.ne_none_iff_exists'.mp hchosen
  exact ⟨regs, hregs, h.2 regs hregs⟩

theorem served_resolveParameter (owner : TypeExpr κ)
    (h : Satisfied classes registry fine parameter.dependency) :
    Served fine Untroubled (resolveParameter classes registry owner parameter) := by
  by_cases hchosen : chosen classes registry parameter.type.sought = none
  · rw [resolveParameter_of_none owner hchosen]
    split
    · exact served_pure _
    · rename_i hoptional
      split
      · exact served_pure _
      · rename_i hdefault
        refine absurd hchosen (h.1 ?_)
        simp [Parameter.dependency, hoptional, hdefault]
  · exact Coroutine.Respects.imp (fun _ hpassed => hpassed.1)
      (passed_resolveParameter owner (h.available hchosen))

theorem served_collectKwargs (owner : TypeExpr κ) {parameters : List (Parameter κ)}
    (h : ∀ parameter ∈ parameters, Satisfied classes registry fine parameter.dependency) :
    Served fine Untroubled (collectKwargs classes registry owner parameters) := by
  induction parameters with
  | nil => exact served_pure []
  | cons parameter parameters ih =>
    have hhead := h parameter mem_cons_self
    have htail : ∀ other ∈ parameters, Satisfied classes registry fine other.dependency :=
      fun other hother => h other (mem_cons_of_mem _ hother)
    refine served_bind (served_resolveParameter owner hhead)
      fun argument => served_bind (ih htail) fun kwargs => ?_
    cases argument with
    | none => exact served_pure kwargs
    | some supplied => exact served_pure _

omit [DecidableEq κ] in
theorem served_userCode (outcome : Except ε α) :
    Served fine Untroubled (userCode outcome : Resolving κ ε α) := by
  cases outcome with
  | ok value => exact served_pure value
  | error error => exact served_throw id

theorem served_annotatedField (slot : Slot) (h : Satisfied classes registry fine
      ⟨type.sought, !type.isOptional⟩) :
    Served fine Untroubled (do
        let _ ← resolveParam classes registry slot type
        return ()) := by
  by_cases hchosen : chosen classes registry type.sought = none
  · obtain ⟨_, hparam⟩ | ⟨hoptional, _⟩ := resolveParam_of_none slot hchosen
    · rw [hparam]
      exact served_pure ()
    · refine absurd hchosen (h.1 ?_)
      simp [hoptional]
  · have hparam : Served fine Untroubled (resolveParam classes registry slot type) :=
      Coroutine.Respects.imp (fun _ hinjected => hinjected.1)
        (served_resolveParam slot (h.available hchosen))
    exact served_bind hparam fun _ => served_pure ()

theorem served_plainField (owner : TypeExpr κ) (field : Field κ) (slot : Slot) {required : Bool}
    (h : Satisfied classes registry fine ⟨.type type, required⟩) :
    Served fine Untroubled (Async.catching (do
          let _ ← resolve classes registry slot type
          return ())
        (exceptMissing (if required then
            Async.throw (.noSuchBean (fieldError classes owner field))
          else pure ()))) := by
  by_cases hchosen : chosen classes registry (.type type) = none
  · obtain ⟨failure, hmissing, hthrow⟩ := resolve_of_none slot hchosen
    have hoptional : required = false := by
      cases required with
      | true => exact absurd hchosen (h.1 rfl)
      | false => rfl
    rw [hthrow, hoptional]
    show Served fine Untroubled (exceptMissing (pure ()) failure)
    rw [exceptMissing_of_missing hmissing]
    exact served_pure ()
  · refine Async.Respects.catching
      (served_bind (served_resolve slot (h.available hchosen)) fun _ =>
        served_pure ()) (fun _ hvalue => hvalue) ?_
    intro failure hfailure
    rw [exceptMissing_of_not_missing (hfailure failure rfl)]
    exact hfailure

theorem served_injectField (owner : TypeExpr κ) {field : Field κ}
    (h : ∀ dependency, field.dependency = some dependency →
      Satisfied classes registry fine dependency) :
    Served fine Untroubled (injectField classes registry owner field) := by
  unfold Field.dependency at h
  unfold injectField
  cases hmark : field.mark with
  | value =>
    exact served_bind ⟨trivial, fun _ hreply => hreply⟩ fun _ =>
      served_userCode _
  | autowired qualifier required =>
    rw [hmark] at h
    cases qualifier with
    | some name =>
      have hname := h _ rfl
      exact served_bind (served_resolveByName _ (hname.available (hname.1 rfl)))
        fun _ => served_pure ()
    | none =>
      dsimp only at h ⊢
      split
      · rename_i base qualifier htype
        rw [htype] at h
        exact served_annotatedField _ (h _ rfl)
      · rename_i htype
        refine served_plainField owner field _ (h _ ?_)
        split
        · rename_i base qualifier hannotated
          exact absurd hannotated (htype base qualifier)
        · rfl

theorem served_creation {owner : TypeExpr κ} (h : ∀ dependency ∈ dependencies classes owner,
      Satisfied classes registry fine dependency) :
    Served fine Untroubled (creation classes registry owner) := by
  have hfields : Served fine Untroubled (injectAutowiredFields classes registry owner) := by
    unfold injectAutowiredFields
    cases hfields : classes.fields owner with
    | none => exact served_pure ()
    | some fields =>
      have hall : ∀ field ∈ fields, Served fine Untroubled
          (injectField classes registry owner field) := by
        intro field hfield
        refine served_injectField owner fun dependency hdependency =>
          h dependency (mem_append_right _ ?_)
        rw [hfields]
        exact mem_filterMap.mpr ⟨field, hfield, hdependency⟩
      clear hfields
      dsimp only
      induction fields with
      | nil => exact served_pure ()
      | cons field fields ih =>
        exact served_bind (hall field mem_cons_self) fun _ =>
          ih fun other hother =>
            hall other (mem_cons_of_mem _ hother)
  unfold creation
  cases hparameters : classes.parameters owner with
  | error error => exact @served_throw κ ε fine Unit (.other error) id
  | ok parameters =>
    have hkwargs : Served fine Untroubled
        (collectKwargs classes registry owner parameters) := by
      refine served_collectKwargs owner fun parameter hparameter =>
        h _ (mem_append_left _ ?_)
      rw [hparameters]
      exact mem_map.mpr ⟨parameter, hparameter, rfl⟩
    show Served fine Untroubled
      (collectKwargs classes registry owner parameters >>= fun kwargs =>
        userCode (classes.construct owner kwargs) >>= fun _ =>
          injectAutowiredFields classes registry owner)
    exact served_bind hkwargs fun _ =>
      served_bind (served_userCode _) fun _ => hfields

end Programs

section Deficiency

variable [DecidableEq κ] {classes : Classes κ ε} {registry : Registry κ}
variable {base : Beans κ}

def Retains (classes : Classes κ ε) (base beans : Beans κ) : Prop :=
  ∀ reg, (held classes base reg : Option (Except (Failure κ ε) (Bean κ))) ≠ none →
    (held classes beans reg : Option (Except (Failure κ ε) (Bean κ))) ≠ none

omit [DecidableEq κ] in
theorem held_ne_none_iff (beans : Beans κ) (reg : Registration κ) :
    (held classes beans reg : Option (Except (Failure κ ε) (Bean κ))) ≠ none ↔
      (reg.scope = .singleton ∧ beans.instances reg.id ≠ none) ∨
        (reg.scope = .request ∧ ∀ attributes, beans.request = some attributes →
            attributes.get? (cacheKey classes reg) ≠ none) := by
  unfold held
  cases reg.scope with
  | singleton => simp
  | transient => simp
  | request =>
    cases beans.request with
    | none => simp
    | some attributes => simp

variable {beans : Beans κ}

omit [DecidableEq κ] in
theorem Retains.keep (h : Retains classes base beans) (reg : Registration κ) (bean : Bean κ) :
    Retains classes base (keep classes reg bean beans) := by
  intro other hother
  have hbeans := h other hother
  rw [held_ne_none_iff] at hbeans ⊢
  obtain ⟨hscope, hinstance⟩ | ⟨hscope, hrequest⟩ := hbeans
  · refine .inl ⟨hscope, ?_⟩
    unfold Container.keep
    cases reg.scope with
    | transient => exact hinstance
    | request => exact hinstance
    | singleton =>
      by_cases hid : other.id = reg.id
      · simp [hid]
      · simp [Function.update_of_ne hid, hinstance]
  · refine .inr ⟨hscope, ?_⟩
    intro attributes hattributes
    unfold Container.keep at hattributes
    cases hreg : reg.scope with
    | transient =>
      rw [hreg] at hattributes
      exact hrequest attributes hattributes
    | singleton =>
      rw [hreg] at hattributes
      exact hrequest attributes hattributes
    | request =>
      rw [hreg] at hattributes
      obtain ⟨before, hbefore, rfl⟩ := Option.map_eq_some_iff.mp hattributes
      by_cases hkey : cacheKey classes other = cacheKey classes reg
      · simp [hkey]
      · rw [Dict.get?_set_of_ne hkey]
        exact hrequest before hbefore

def Sufficient (classes : Classes κ ε) (registry : Registry κ)
    (base : Beans κ) (resolver : Resolver κ ε) : Prop :=
  ∀ reg, ¬ Deficient classes registry base reg → ∀ beans reply after,
    Retains classes base beans → resolver reg beans = some (reply, after) →
      Retains classes base after ∧ Untroubled reply

variable {α : Type}

theorem sufficient_perform {resolver : Resolver κ ε}
    (hsufficient : Sufficient classes registry base resolver) {owner : Option ℕ}
    {program : Resolving κ ε α} {ends : Except (Failure κ ε) α → Prop}
    (hprogram : Served
      (fun reg => ¬ Deficient classes registry base reg) ends program)
    {final : Beans κ} {result : Except (Failure κ ε) α}
    (hbeans : Retains classes base beans)
    (h : Coroutine.perform (answerQuery classes registry resolver owner)
      program beans = some (result, final)) :
    Retains classes base final ∧ ends result := by
  have hanswer : ∀ query (beans : Beans κ) reply next,
      AsksFor (fun reg => ¬ Deficient classes registry base reg) query →
      Retains classes base beans →
      answerQuery classes registry resolver owner query beans = some (reply, next) →
      Retains classes base next ∧ Untroubled reply := by
    intro query beans reply next hasked hbeans hanswer
    cases query with
    | config cls field =>
      cases hanswer
      refine ⟨hbeans, ?_⟩
      intro failure hfailure
      unfold configReply at hfailure
      split at hfailure
      · cases hfailure
      · cases hfailure
        exact id
    | resolve slot key reg =>
      obtain ⟨made, middle, hmade, rfl, hafter⟩ :=
        answerQuery_resolve_cases hanswer
      obtain ⟨hmiddle, huntroubled⟩ :=
        hsufficient reg hasked beans _ _ hbeans hmade
      obtain ⟨bean, rfl, rfl⟩ | ⟨failure, rfl, rfl⟩ := hafter
      · refine ⟨hmiddle, ?_⟩
        intro failure hfailure
        cases hfailure
      · refine ⟨hmiddle, ?_⟩
        intro failure hfailure
        cases hfailure
        exact huntroubled failure rfl
  exact Coroutine.perform_respects hanswer hprogram hbeans h

omit [DecidableEq κ] in
theorem Retains.congr {after : Beans κ} (h : Retains classes base beans)
    (hinstances : after.instances = beans.instances)
    (hrequest : after.request = beans.request) :
    Retains classes base after := by
  intro reg hreg
  rw [held_congr hinstances hrequest]
  exact h reg hreg

variable {reg : Registration κ}

theorem satisfied_of_not_deficient (hreg : ¬ Deficient classes registry base reg)
    (hnone : (held classes base reg : Option (Except (Failure κ ε) (Bean κ))) = none)
    {dependency : Dependency κ}
    (hmem : dependency ∈ dependencies classes reg.implType) :
    Satisfied classes registry
      (fun other => ¬ Deficient classes registry base other) dependency := by
  constructor
  · intro hrequired hmissing
    exact hreg (.here hnone hmem hrequired hmissing)
  · intro regs hchosen other hother hdeficient
    exact hreg (.through hnone hmem hchosen hother hdeficient)

theorem sufficient_createInstance {resolver : Resolver κ ε}
    (hsufficient : Sufficient classes registry base resolver)
    (hreg : ¬ Deficient classes registry base reg) {after : Beans κ}
    {reply : Except (Failure κ ε) (Bean κ)}
    (hbeans : Retains classes base beans) (hnone : (held classes beans reg :
      Option (Except (Failure κ ε) (Bean κ))) = none)
    (h : createInstance classes registry resolver reg beans = some (reply, after)) :
    Retains classes base after ∧ Untroubled reply := by
  have hbase : (held classes base reg : Option (Except (Failure κ ε) (Bean κ))) = none := by
    by_contra hheld
    exact hbeans reg hheld hnone
  obtain ⟨_, rfl, rfl⟩ | ⟨_, result, final, hperform, hend⟩ :=
    createInstance_cases h
  · refine ⟨hbeans.congr rfl rfl, ?_⟩
    intro failure hfailure
    cases hfailure
    exact id
  · have hprogram := served_creation fun dependency hmem =>
      satisfied_of_not_deficient hreg hbase hmem
    have hentered : Retains classes base (enter reg.implType beans) :=
      hbeans.congr rfl rfl
    obtain ⟨hfinal, huntroubled⟩ :=
      sufficient_perform hsufficient hprogram hentered hperform
    obtain ⟨rfl, rfl, rfl⟩ | ⟨failure, rfl, rfl, rfl⟩ := hend
    · refine ⟨hfinal.congr rfl rfl, ?_⟩
      intro failure hfailure
      cases hfailure
    · refine ⟨hfinal.congr rfl rfl, ?_⟩
      intro failure' hfailure'
      cases hfailure'
      exact huntroubled failure rfl

theorem sufficient_resolveRegistration (depth : ℕ) :
    Sufficient classes registry base (resolveRegistration classes registry depth) := by
  induction depth with
  | zero =>
    intro reg hreg beans reply after hbeans h
    cases h
  | succ depth ih =>
    intro reg hreg beans reply after hbeans h
    obtain ⟨bean, _, rfl, rfl⟩ | ⟨failure, hheld, rfl, rfl⟩ |
      ⟨hnone, made, middle, hmade, hend⟩ := resolveRegistration_cases h
    · refine ⟨hbeans, ?_⟩
      intro failure hfailure
      cases hfailure
    · refine ⟨hbeans, ?_⟩
      intro failure' hfailure'
      cases hfailure'
      rw [held_error hheld]
      exact id
    · obtain ⟨hmiddle, huntroubled⟩ :=
        sufficient_createInstance ih hreg hbeans hnone hmade
      obtain ⟨bean, rfl, rfl, rfl⟩ | ⟨failure, rfl, rfl, rfl⟩ := hend
      · refine ⟨(hmiddle.keep reg bean).congr rfl rfl, ?_⟩
        intro failure hfailure
        cases hfailure
      · exact ⟨hmiddle, huntroubled⟩

/-! ## Falling back -/

def Ends {α : Type} (ends : Except (Failure κ ε) α → Prop) (program : Resolving κ ε α) : Prop :=
  Async.Respects (fun _ => True) (fun _ => True) ends program

omit [DecidableEq κ] in
theorem ends_pure (value : α) : Ends Untroubled (pure value : Resolving κ ε α) := by
  intro failure hfailure
  cases hfailure

omit [DecidableEq κ] in
theorem ends_catching (program : Resolving κ ε α) {handler : Resolving κ ε α}
    (hhandler : Ends Untroubled handler) :
    Ends Untroubled (Async.catching program (exceptMissing handler)) := by
  refine Async.Respects.catching (Coroutine.respects_true program) ?_ ?_
  · intro value _ failure hfailure
    cases hfailure
  · intro failure _
    by_cases hmissing : failure.Missing
    · rw [exceptMissing_of_missing hmissing]
      exact hhandler
    · rw [exceptMissing_of_not_missing hmissing]
      intro other hother
      cases hother
      exact hmissing

theorem ends_resolveParam (slot : Slot) {type : TypeExpr κ} (h : type.isOptional = true) :
    Ends Untroubled (resolveParam classes registry slot type) := by
  induction type with
  | annotated base qualifier ih =>
    cases qualifier with
    | none => exact ih h
    | some name => cases h
  | optional inner ih => exact ends_catching _ (ends_pure _)
  | _ => cases h

omit [DecidableEq κ] in
theorem untroubled_of_ends {σ : Type} {program : Resolving κ ε α}
    (hprogram : Ends Untroubled program)
    {answer : Query κ → σ → Option (Except (Failure κ ε) (TypeExpr κ) × σ)}
    {state final : σ} {result : Except (Failure κ ε) α}
    (h : Coroutine.perform answer program state = some (result, final)) :
    Untroubled result := by
  have hanswer : ∀ query state reply next, True → True →
      answer query state = some (reply, next) → True ∧ True :=
    fun _ _ _ _ _ _ _ => ⟨trivial, trivial⟩
  exact (Coroutine.perform_respects hanswer hprogram trivial h).2

def Parameter.mayFallBack (parameter : Parameter κ) : Bool :=
  parameter.type.isOptional || parameter.hasDefault

theorem ends_resolveParameter (owner : TypeExpr κ)
    {parameter : Parameter κ} (h : parameter.mayFallBack = true) :
    Ends Untroubled (resolveParameter classes registry owner parameter) := by
  unfold resolveParameter
  by_cases hdefault : parameter.hasDefault = true
  · rw [hdefault]
    exact ends_catching _ (ends_pure _)
  · have hoptional : parameter.type.isOptional = true := by
      simpa [Parameter.mayFallBack, hdefault] using h
    have hvalue : Ends Untroubled (do
          return some (← resolveParam classes registry
            (.parameter parameter.name) parameter.type)) := by
      refine Async.Respects.bind (ends_resolveParam _ hoptional)
        (fun _ _ => ends_pure _) ?_
      intro failure hfailure other hother
      cases hother
      exact hfailure failure rfl
    refine Async.Respects.catching hvalue (fun _ hvalue => hvalue) ?_
    intro failure hfailure
    rw [exceptMissing_of_not_missing (hfailure failure rfl)]
    exact hfailure

/-- The default, or `None`, is used. -/
def FallsBack (result : Except (Failure κ ε) (Option (Supplied κ))) : Prop :=
  result = .ok none ∨ result = .ok (some .none)

def FallbackLaw (classes : Classes κ ε) (registry : Registry κ)
    (beans : Beans κ) (parameter : Parameter κ)
    (result : Except (Failure κ ε) (Option (Supplied κ))) : Prop :=
  (FallsBack result → ¬ registry.Registered parameter.type.sought) ∧
  ((∃ regs, chosen classes registry parameter.type.sought = some regs ∧
      ∃ reg ∈ regs, Deficient classes registry beans reg) →
    ∃ failure, result = .error failure ∧ failure.Missing)

theorem registered_of_chosen {sought : Sought κ} {regs : List (Registration κ)}
    (h : chosen classes registry sought = some regs) (hreg : reg ∈ regs) :
    registry.Registered sought := by
  cases sought with
  | type type =>
    by_cases hdirect : registry.registrations.get? type = none
    · refine .inr ?_
      intro hnil
      simp [chosen, hdirect, hnil] at h
    · exact .inl hdirect
  | name name =>
    obtain ⟨found, hfound, _⟩ := Option.map_eq_some_iff.mp h
    exact Option.ne_none_iff_exists'.mpr ⟨found, hfound⟩
  | all item =>
    cases h
    obtain ⟨impl, himpl, _⟩ := mem_filterMap.mp hreg
    exact ne_nil_of_mem himpl
  | nothing => cases h

/-- The law holds exactly when no bean is registered for the parameter, or the
one which is chosen, with all it depends on, lacks nothing. -/
theorem fallbackLaw_iff {depth : ℕ} {owner : TypeExpr κ} {id : Option ℕ}
    {parameter : Parameter κ} (hoptional : parameter.mayFallBack = true)
    {beans after : Beans κ}
    {result : Except (Failure κ ε) (Option (Supplied κ))}
    (h : Coroutine.perform (answerQuery classes registry
        (resolveRegistration classes registry depth) id)
      (resolveParameter classes registry owner parameter) beans = some (result, after)) :
    FallbackLaw classes registry beans parameter result ↔
      ¬ registry.Registered parameter.type.sought ∨
        ∃ regs, chosen classes registry parameter.type.sought = some regs ∧
          ∀ reg ∈ regs, ¬ Deficient classes registry beans reg := by
  constructor
  · rintro ⟨hfalls, hnames⟩
    by_cases hregistered : registry.Registered parameter.type.sought
    · right
      cases hchosen : chosen classes registry parameter.type.sought with
      | none =>
        refine absurd hregistered (hfalls ?_)
        rw [resolveParameter_of_none owner hchosen] at h
        by_cases hnone : parameter.type.isOptional = true
        · rw [if_pos hnone] at h
          cases h
          exact .inr rfl
        · have hdefault : parameter.hasDefault = true := by
            simpa [Parameter.mayFallBack, hnone] using hoptional
          rw [if_neg hnone, if_pos hdefault] at h
          cases h
          exact .inl rfl
      | some regs =>
        refine ⟨regs, rfl, ?_⟩
        intro reg hreg hdeficient
        obtain ⟨failure, rfl, hmissing⟩ :=
          hnames ⟨regs, hchosen, reg, hreg, hdeficient⟩
        -- such a parameter passes no error about a missing bean on
        exact untroubled_of_ends (ends_resolveParameter owner hoptional) h failure rfl hmissing
    · exact .inl hregistered
  · rintro (hregistered | ⟨regs, hchosen, hfine⟩)
    · refine ⟨fun _ => hregistered, ?_⟩
      rintro ⟨regs, hchosen, reg, hreg, _⟩
      exact absurd (registered_of_chosen hchosen hreg) hregistered
    · have hpassed := passed_resolveParameter owner ⟨regs, hchosen, hfine⟩
      have hretains : Retains classes beans beans := fun _ hheld => hheld
      obtain ⟨_, _, hdefault, hnone⟩ := sufficient_perform
        (sufficient_resolveRegistration depth) hpassed hretains h
      constructor
      · rintro (hfalls | hfalls)
        · exact absurd hfalls hdefault
        · exact absurd hfalls hnone
      · rintro ⟨regs', hchosen', reg, hreg, hdeficient⟩
        rw [hchosen] at hchosen'
        cases hchosen'
        exact absurd hdeficient (hfine reg hreg)

end Deficiency

/-- `Cache` needs a `Pool`. -/
def pooled : Classes String Empty :=
  Classes.plain
    (fun cls =>
      if cls = .cls "Cache" then [⟨"pool", .cls "Pool", false⟩] else [])
    fun _ => []

def cacheOnly : Registry String :=
  register pooled (.cls "Cache") .singleton "" Registry.empty

def cacheParameter : Parameter String :=
  ⟨"cache", .optional (.cls "Cache"), false⟩

def poolParameter : Parameter String := ⟨"pool", .cls "Pool", true⟩

/-- A parameter with a default for which no bean is registered. -/
theorem fallbackLaw_poolParameter :
    FallbackLaw pooled cacheOnly (Beans.initial none) poolParameter (.ok none) := by
  have hiff := @fallbackLaw_iff String Empty _ pooled cacheOnly 2
    (.cls "Service") none poolParameter rfl (Beans.initial none) _ _ rfl
  apply hiff.mpr
  left
  rintro (hdirect | hbound)
  · exact hdirect rfl
  · exact hbound rfl

/-- A service is given no cache, although one is registered, because the cache
lacks its pool. -/
theorem not_fallbackLaw_cacheParameter : ∃ result after, Coroutine.perform
          (answerQuery pooled cacheOnly
            (resolveRegistration pooled cacheOnly cacheOnly.depth) none)
          (resolveParameter pooled cacheOnly (.cls "Service") cacheParameter)
          (Beans.initial none) = some (result, after) ∧
        ¬ FallbackLaw pooled cacheOnly (Beans.initial none) cacheParameter
          result := by
  refine ⟨.ok (some .none), _, rfl, ?_⟩
  rintro ⟨hfalls, _⟩
  exact hfalls (.inr rfl) (.inl (by decide))

end PyFly.Container
