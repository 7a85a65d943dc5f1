import PyFly.Container

/-!
# The programs of a resolution

All programs ask for registrations of the registry only.  A report of a
circular dependency is caught nowhere, and no program makes one up.
-/

namespace PyFly.Container

open Library List

variable {κ ε : Type}

def Failure.Circular (failure : Failure κ ε) : Prop :=
  ∃ chain current, failure = .currentlyInCreation chain current

def Registry.Serves (registry : Registry κ) : Query κ → Prop
  | .resolve _ _ reg => reg ∈ registry.all
  | .config _ _ => True

section Programs

variable {α : Type}

theorem not_circular_of_noSuchBean (error : NoSuchBean κ) :
    ¬ (Failure.noSuchBean error : Failure κ ε).Circular := by
  rintro ⟨chain, current, h⟩
  cases h

theorem not_circular_of_noUniqueBean (type : TypeExpr κ) (candidates : List (TypeExpr κ)) :
    ¬ (Failure.noUniqueBean type candidates : Failure κ ε).Circular := by
  rintro ⟨chain, current, h⟩
  cases h

theorem not_circular_of_keyError (key : TypeExpr κ) :
    ¬ (Failure.keyError key : Failure κ ε).Circular := by
  rintro ⟨chain, current, h⟩
  cases h

theorem not_circular_of_other (error : ε) : ¬ (Failure.other error : Failure κ ε).Circular := by
  rintro ⟨chain, current, h⟩
  cases h

structure Wellformed (registry : Registry κ) (program : Resolving κ ε α) :
    Prop where
  relays : Async.Relays Failure.Circular program
  serves : Async.Always registry.Serves program

namespace Wellformed

variable {registry : Registry κ} {β : Type}

theorem pure (value : α) : Wellformed registry (Pure.pure value : Resolving κ ε α) :=
  ⟨Async.Relays.pure value, trivial⟩

theorem throw {failure : Failure κ ε} (h : ¬ failure.Circular) :
    Wellformed registry (Async.throw failure : Resolving κ ε α) :=
  ⟨Async.Relays.throw h, trivial⟩

theorem ask {query : Query κ} (h : registry.Serves query) : Wellformed registry
      (Async.ask query : Resolving κ ε (TypeExpr κ)) :=
  ⟨Async.Relays.ask query, h, fun _ => trivial⟩

theorem bind {program : Resolving κ ε α} {next : α → Resolving κ ε β}
    (hprogram : Wellformed registry program)
    (hnext : ∀ value, Wellformed registry (next value)) :
    Wellformed registry (program >>= next) :=
  ⟨Async.Relays.bind hprogram.relays fun value => (hnext value).relays,
    Async.Always.bind hprogram.serves fun value => (hnext value).serves⟩

theorem exceptMissing {program handler : Resolving κ ε α}
    (hprogram : Wellformed registry program)
    (hhandler : Wellformed registry handler) :
    Wellformed registry (Async.catching program (Container.exceptMissing handler)) := by
  refine ⟨Async.Relays.catching hprogram.relays ?_ ?_, Async.Always.catching hprogram.serves ?_⟩
  · intro failure hfailure
    cases failure with
    | noSuchBean error => exact hhandler.relays
    | noUniqueBean type candidates => exact hhandler.relays
    | _ => exact Async.Relays.throw hfailure
  · rintro failure ⟨chain, current, rfl⟩
    rfl
  · intro failure
    cases failure with
    | noSuchBean error => exact hhandler.serves
    | noUniqueBean type candidates => exact hhandler.serves
    | _ => trivial

theorem userCode (outcome : Except ε α) :
    Wellformed registry (Container.userCode outcome : Resolving κ ε α) := by
  cases outcome with
  | ok value => exact pure value
  | error error => exact throw (not_circular_of_other error)

theorem forEach {γ : Type} {items : List γ} {body : γ → Resolving κ ε Unit}
    (hbody : ∀ item, Wellformed registry (body item)) :
    Wellformed registry (Async.forEach items body) := by
  induction items with
  | nil => exact pure ()
  | cons item items ih => exact bind (hbody item) fun _ => ih

theorem mem_all_of_named {name : String} {reg : Registration κ}
    (h : registry.named.get? name = some reg) : reg ∈ registry.all := by
  have hmem := Dict.get?_eq_some_iff.mp h
  exact mem_append_right _ (mem_map.mpr ⟨_, hmem, rfl⟩)

variable [DecidableEq κ] {classes : Classes κ ε}

theorem mem_all_of_registrations {type : TypeExpr κ} {reg : Registration κ}
    (h : registry.registrations.get? type = some reg) :
    reg ∈ registry.all := by
  have hmem := Dict.get?_eq_some_iff.mp h
  exact mem_append_left _ (mem_map.mpr ⟨_, hmem, rfl⟩)

theorem resolveImpl (slot : Slot) (key : Key κ) (impl : TypeExpr κ) :
    Wellformed registry (Container.resolveImpl registry slot key impl :
        Resolving κ ε (TypeExpr κ)) := by
  unfold Container.resolveImpl
  cases hreg : registry.registrations.get? impl with
  | none => exact throw (not_circular_of_keyError impl)
  | some reg => exact ask (mem_all_of_registrations hreg)

theorem resolve (slot : Slot) (type : TypeExpr κ) : Wellformed registry
      (Container.resolve classes registry slot type) := by
  unfold Container.resolve
  cases hreg : registry.registrations.get? type with
  | some reg => exact ask (mem_all_of_registrations hreg)
  | none =>
    dsimp only
    split
    · exact throw (not_circular_of_noSuchBean _)
    · exact resolveImpl slot _ _
    · split
      · exact resolveImpl slot _ _
      · exact throw (not_circular_of_noUniqueBean _ _)

omit [DecidableEq κ] in
theorem resolveByName (slot : Slot) (name : String) : Wellformed registry
      (Container.resolveByName registry slot name : Resolving κ ε (TypeExpr κ)) := by
  unfold Container.resolveByName
  cases hreg : registry.named.get? name with
  | some reg => exact ask (mem_all_of_named hreg)
  | none => exact throw (not_circular_of_noSuchBean _)

theorem resolveImpls (slot : Slot) (impls : List (TypeExpr κ)) :
    Wellformed registry (Container.resolveImpls registry slot impls :
        Resolving κ ε (List (TypeExpr κ))) := by
  induction impls with
  | nil => exact pure []
  | cons impl impls ih =>
    exact bind (resolveImpl slot _ impl) fun bean =>
      bind ih fun beans => pure (bean :: beans)

theorem resolveParam (slot : Slot) (type : TypeExpr κ) : Wellformed registry
      (Container.resolveParam classes registry slot type) := by
  induction type with
  | cls cls => exact bind (resolve slot _) fun _ => pure _
  | annotated base qualifier ih =>
    cases qualifier with
    | some name =>
      exact bind (resolveByName slot name) fun _ => pure _
    | none => exact ih
  | optional inner ih =>
    exact exceptMissing (bind (resolve slot inner) fun _ => pure _) (pure _)
  | listOf item ih =>
    exact bind (resolveImpls slot _) fun _ => pure _
  | classRef arg => exact throw (not_circular_of_noSuchBean _)

theorem resolveParameter (owner : TypeExpr κ) (parameter : Parameter κ) :
    Wellformed registry (Container.resolveParameter classes registry owner parameter) := by
  refine exceptMissing (bind (resolveParam _ parameter.type) fun supplied =>
      pure (some supplied)) ?_
  split
  · exact pure none
  · exact throw (not_circular_of_noSuchBean _)

theorem collectKwargs (owner : TypeExpr κ) (parameters : List (Parameter κ)) :
    Wellformed registry (Container.collectKwargs classes registry owner parameters) := by
  induction parameters with
  | nil => exact pure []
  | cons parameter parameters ih =>
    refine bind (resolveParameter owner parameter) fun argument =>
      bind ih fun kwargs => ?_
    cases argument with
    | none => exact pure kwargs
    | some supplied => exact pure _

theorem injectField (owner : TypeExpr κ) (field : Field κ) : Wellformed registry
      (Container.injectField classes registry owner field) := by
  unfold Container.injectField
  split
  · exact bind (ask trivial) fun _ => userCode _
  · exact bind (resolveByName _ _) fun _ => pure ()
  · split
    · exact bind (resolveParam _ _) fun _ => pure ()
    · refine exceptMissing (bind (resolve _ _) fun _ => pure ()) ?_
      split
      · exact throw (not_circular_of_noSuchBean _)
      · exact pure ()

theorem creation (owner : TypeExpr κ) :
    Wellformed registry (Container.creation classes registry owner) := by
  refine bind (userCode _) fun parameters =>
    bind (collectKwargs owner parameters) fun kwargs =>
      bind (userCode _) fun _ => ?_
  unfold Container.injectAutowiredFields
  cases classes.fields owner with
  | none => exact pure ()
  | some fields => exact forEach fun field => injectField owner field

end Wellformed

end Programs

end PyFly.Container
