import Mathlib.Algebra.GroupWithZero.Nat
import Mathlib.Data.List.Induction
import Mathlib.Data.List.Sort
import PyFly.Library.TextPatterns

/-!
# Weaving of aspects

One pass over the registrations collects the aspects and weaves the other
beans.  A bean gets the advice of the aspects before it, and gets it again
with every further registration which holds it.
-/

namespace PyFly.Aop

open Library List

/-- `_segment_to_regex` on a segment other than `**`. -/
def segmentMatches (segment part : List Char) : Bool :=
  if segment = ['*'] then !part.isEmpty
  else Piece.accepts (segment.map fun c =>
    if c = '*' then .run fun _ => true
    else if c = '?' then .one fun _ => true
    else .one fun d => d = c) part

/-- Segments against the dot-separated parts of a name; `**` takes one or more
parts which are not empty. -/
def segmentsMatch : List (List Char) → List (List Char) → Bool
  | segments, [] => segments.isEmpty
  | [], _ :: _ => false
  | segment :: segments, part :: parts =>
    if segment = ['*', '*'] then
      !part.isEmpty && (segmentsMatch segments parts ||
          segmentsMatch (segment :: segments) parts)
    else segmentMatches segment part && segmentsMatch segments parts

def matchesPointcut (pattern qualifiedName : List Char) : Bool :=
  segmentsMatch (pattern.splitOn '.') (qualifiedName.splitOn '.')

/-! ## Classes and beans -/

inductive AdviceType
  | before
  | afterReturning
  | afterThrowing
  | after
  | around
  deriving DecidableEq

structure AdviceMethod where
  name : List Char
  adviceType : AdviceType
  pointcut : List Char

/-- A public method, and whether it is a coroutine function. -/
structure Method where
  name : List Char
  isAsync : Bool

structure BeanClass where
  isAspect : Bool := false
  order : ℤ := 0
  advice : List AdviceMethod := []
  stereotype : List Char := []
  moduleName : List Char := []
  name : List Char
  methods : List Method := []
  advice_nodup : (advice.map AdviceMethod.name).Nodup := by simp
  methods_nodup : (methods.map Method.name).Nodup := by simp

/-- `f"{prefix}.{attr_name}"`, with the prefix of `after_init`. -/
def BeanClass.qualifiedName (cls : BeanClass) (method : Method) : List Char :=
  (if cls.stereotype.isEmpty then cls.moduleName else cls.stereotype) ++
    '.' :: cls.name ++ '.' :: method.name

structure AdviceBinding (β : Type) where
  adviceType : AdviceType
  pointcut : List Char
  handler : β × List Char
  aspectOrder : ℤ

/-- The beans of a context, their classes and what these say. -/
structure BeanTypes (β κ : Type) where
  classOf : β → κ
  info : κ → BeanClass

variable {β κ : Type}

def BeanTypes.get (types : BeanTypes β κ) (bean : β) : BeanClass :=
  types.info (types.classOf bean)

variable [DecidableEq β] [DecidableEq κ] (types : BeanTypes β κ)

/-! ## The post-processor -/

def bindingsOf (aspect : β) : List (AdviceBinding β) :=
  (types.get aspect).advice.map fun advice =>
    { adviceType := advice.adviceType
      pointcut := advice.pointcut
      handler := (aspect, advice.name)
      aspectOrder := (types.get aspect).order }

def register (bindings : List (AdviceBinding β)) (aspect : β) : List (AdviceBinding β) :=
  (bindings ++ bindingsOf types aspect).insertionSort fun first second =>
    first.aspectOrder ≤ second.aspectOrder

def getMatching (bindings : List (AdviceBinding β))
    (qualifiedName : List Char) : List (AdviceBinding β) :=
  bindings.filter fun binding =>
    matchesPointcut binding.pointcut qualifiedName

abbrev Woven (β : Type) := β → List Char → List (List (AdviceBinding β))

structure AspectBeanPostProcessor (β κ : Type) where
  registry : Option (List (AdviceBinding β)) := none
  aspectTypes : List κ := []
  woven : Woven β := fun _ _ => []

def weaveMethod (bindings : List (AdviceBinding β)) (bean : β)
    (woven : Woven β) (method : Method) : Woven β :=
  let matching :=
    getMatching bindings ((types.get bean).qualifiedName method)
  if matching.isEmpty then woven
  else fun other name =>
    if other = bean ∧ name = method.name then matching :: woven other name
    else woven other name

def weaveBean (bindings : List (AdviceBinding β)) (bean : β) (woven : Woven β) : Woven β :=
  (types.get bean).methods.foldl (weaveMethod types bindings bean) woven

namespace AspectBeanPostProcessor

variable (processor : AspectBeanPostProcessor β κ)

def beforeInit (bean : β) : AspectBeanPostProcessor β κ :=
  if (types.get bean).isAspect then
    { processor with
      registry := some (register types (processor.registry.getD []) bean)
      aspectTypes := types.classOf bean :: processor.aspectTypes }
  else processor

def afterInit (bean : β) : AspectBeanPostProcessor β κ :=
  match processor.registry with
  | none => processor
  | some bindings =>
    if types.classOf bean ∈ processor.aspectTypes then processor
    else
      { processor with
        woven := weaveBean types bindings bean processor.woven }

def process : Option β → AspectBeanPostProcessor β κ
  | none => processor
  | some bean => (processor.beforeInit types bean).afterInit types bean

end AspectBeanPostProcessor

def started (registrations : List (Option β)) : AspectBeanPostProcessor β κ :=
  registrations.foldl (fun processor registration =>
    processor.process types registration) {}

/-! ## Counting bindings -/

def pairs (aspect target : β) : List (Option β) → ℕ
  | [] => 0
  | registration :: rest =>
    (if registration = some aspect then rest.count (some target) else 0) +
      pairs aspect target rest

theorem pairs_concat (aspect target : β) (registrations : List (Option β))
    (registration : Option β) :
    pairs aspect target (registrations ++ [registration]) = pairs aspect target registrations +
        if registration = some target then registrations.count (some aspect)
        else 0 := by
  induction registrations with
  | nil => simp [pairs]
  | cons first rest ih =>
    rw [cons_append, pairs, pairs, ih, count_append, count_cons]
    by_cases htarget : registration = some target <;>
      by_cases hfirst : first = some aspect <;> simp [htarget, hfirst]
    all_goals omega

def Faithful (types : BeanTypes β κ) (bindings : List (AdviceBinding β)) :
    Prop :=
  ∀ aspect, ∀ advice ∈ (types.get aspect).advice, ∀ binding ∈ bindings,
    binding.handler = (aspect, advice.name) → binding.adviceType = advice.adviceType ∧
        binding.pointcut = advice.pointcut

def bound (handler : β × List Char) (bindings : List (AdviceBinding β)) : ℕ :=
  bindings.countP fun binding => binding.handler = handler

variable {types} {bindings : List (AdviceBinding β)} {aspect : β} {advice : AdviceMethod}

omit [DecidableEq β] [DecidableEq κ] in
theorem faithful_register (hbindings : Faithful types bindings) (bean : β) :
    Faithful types (register types bindings bean) := by
  intro aspect advice hadvice binding hbinding hhandler
  rw [register, mem_insertionSort, mem_append] at hbinding
  rcases hbinding with hbinding | hbinding
  · exact hbindings aspect advice hadvice binding hbinding hhandler
  · obtain ⟨other, hother, rfl⟩ := mem_map.mp hbinding
    simp only [Prod.mk.injEq] at hhandler
    obtain ⟨rfl, hname⟩ := hhandler
    rw [inj_on_of_nodup_map (types.get bean).advice_nodup hother hadvice hname]
    simp

omit [DecidableEq κ] in
theorem bound_register (hadvice : advice ∈ (types.get aspect).advice)
    (bindings : List (AdviceBinding β)) (bean : β) :
    bound (aspect, advice.name) (register types bindings bean) =
      bound (aspect, advice.name) bindings + if bean = aspect then 1 else 0 := by
  unfold bound register
  rw [(perm_insertionSort _ _).countP_eq, countP_append]
  congr 1
  unfold bindingsOf
  rw [countP_map]
  by_cases hbean : bean = aspect
  · subst hbean
    have hone : (types.get bean).advice.countP
        (fun other => other.name = advice.name) = 1 := by
      rw [← count_eq_one_of_mem (types.get bean).advice_nodup
        (mem_map_of_mem hadvice), List.count, countP_map]
      apply countP_congr
      intro other _
      simp
    simpa [Function.comp_def] using hone
  · simp [Function.comp_def, hbean]

omit [DecidableEq κ] in
theorem bound_getMatching (hbindings : Faithful types bindings)
    (hadvice : advice ∈ (types.get aspect).advice) {name : List Char}
    (hmatch : matchesPointcut advice.pointcut name = true) :
    bound (aspect, advice.name) (getMatching bindings name) =
      bound (aspect, advice.name) bindings := by
  unfold bound getMatching
  rw [countP_filter]
  apply countP_congr
  intro binding hbinding
  simp only [Bool.and_eq_true, decide_eq_true_eq, and_iff_left_iff_imp]
  intro hhandler
  rw [(hbindings aspect advice hadvice binding hbinding hhandler).2]
  exact hmatch

omit [DecidableEq β] [DecidableEq κ] in
theorem Faithful.getMatching (hbindings : Faithful types bindings)
    (name : List Char) : Faithful types (getMatching bindings name) := by
  intro aspect advice hadvice binding hbinding
  exact hbindings aspect advice hadvice binding (mem_of_mem_filter hbinding)

/-! ## The wrappers of a method -/

def boundIn (handler : β × List Char) (layers : List (List (AdviceBinding β))) : ℕ :=
  (layers.map (bound handler)).sum

section Weaving

variable {bean : β} {woven : Woven β} {methods : List Method} {method : Method}

omit [DecidableEq κ] in
theorem weaveMethod_of_ne {other : β} {name : List Char}
    (hne : ¬ (other = bean ∧ name = method.name)) :
    weaveMethod types bindings bean woven method other name = woven other name := by
  unfold weaveMethod
  split
  · rfl
  · exact if_neg hne

omit [DecidableEq κ] in
theorem foldl_weaveMethod_of_ne {other : β} {name : List Char}
    (hne : other = bean → name ∉ methods.map Method.name) :
    methods.foldl (weaveMethod types bindings bean) woven other name = woven other name := by
  induction methods generalizing woven with
  | nil => rfl
  | cons first methods ih =>
    rw [foldl_cons, ih, weaveMethod_of_ne]
    · rintro ⟨hbean, hname⟩
      exact hne hbean (by simp [hname])
    · intro hbean hmem
      exact hne hbean (mem_cons_of_mem _ hmem)

omit [DecidableEq κ] in
theorem foldl_weaveMethod (hnodup : (methods.map Method.name).Nodup)
    (hmethod : method ∈ methods) :
    methods.foldl (weaveMethod types bindings bean) woven bean method.name =
      if (getMatching bindings
          ((types.get bean).qualifiedName method)).isEmpty then
        woven bean method.name
      else getMatching bindings ((types.get bean).qualifiedName method) ::
        woven bean method.name := by
  induction methods generalizing woven with
  | nil => cases hmethod
  | cons first methods ih =>
    simp only [map_cons, nodup_cons] at hnodup
    rw [foldl_cons]
    rcases mem_cons.mp hmethod with rfl | hmethod
    · rw [foldl_weaveMethod_of_ne fun _ => hnodup.1]
      unfold weaveMethod
      split <;> simp_all
    · have hne : method.name ≠ first.name := fun hsame =>
        hnodup.1 (hsame ▸ mem_map_of_mem hmethod)
      rw [ih hnodup.2 hmethod, weaveMethod_of_ne fun h => hne h.2]

omit [DecidableEq κ] in
theorem faithful_weaveBean (hbindings : Faithful types bindings)
    (hwoven : ∀ bean name, ∀ layer ∈ woven bean name, Faithful types layer)
    (bean other : β) (name : List Char) :
    ∀ layer ∈ weaveBean types bindings bean woven other name, Faithful types layer := by
  unfold weaveBean
  induction (types.get bean).methods generalizing woven with
  | nil => exact hwoven other name
  | cons method methods ih =>
    apply ih
    intro other name layer hlayer
    unfold weaveMethod at hlayer
    split at hlayer
    · exact hwoven other name layer hlayer
    · dsimp only at hlayer
      split at hlayer
      · rcases mem_cons.mp hlayer with rfl | hlayer
        · exact hbindings.getMatching _
        · exact hwoven other name layer hlayer
      · exact hwoven other name layer hlayer

omit [DecidableEq κ] in
theorem boundIn_weaveBean (hbindings : Faithful types bindings)
    (hadvice : advice ∈ (types.get aspect).advice) (bean : β) {target : β}
    (hmethod : method ∈ (types.get target).methods)
    (hmatch : matchesPointcut advice.pointcut
      ((types.get target).qualifiedName method) = true) :
    boundIn (aspect, advice.name) (weaveBean types bindings bean woven target method.name) =
      boundIn (aspect, advice.name) (woven target method.name) +
        if bean = target then bound (aspect, advice.name) bindings else 0 := by
  unfold weaveBean
  by_cases hbean : bean = target
  · subst hbean
    rw [foldl_weaveMethod (types.get bean).methods_nodup hmethod, if_pos rfl,
      ← bound_getMatching hbindings hadvice hmatch]
    split
    · rename_i hempty
      simp [List.isEmpty_iff.mp hempty, bound]
    · simp [boundIn, Nat.add_comm]
  · rw [foldl_weaveMethod_of_ne fun hsame => absurd hsame.symm hbean,
      if_neg hbean, Nat.add_zero]

end Weaving

structure Pass (types : BeanTypes β κ) (registrations : List (Option β))
    (processor : AspectBeanPostProcessor β κ) : Prop where
  known : ∀ cls ∈ processor.aspectTypes, (types.info cls).isAspect = true
  faithful : Faithful types (processor.registry.getD [])
  layers : ∀ bean name, ∀ layer ∈ processor.woven bean name, Faithful types layer
  collected : ∀ aspect, (types.get aspect).isAspect = true →
    ∀ advice ∈ (types.get aspect).advice,
      bound (aspect, advice.name) (processor.registry.getD []) =
        registrations.count (some aspect)
  paired : ∀ aspect, (types.get aspect).isAspect = true →
    ∀ advice ∈ (types.get aspect).advice, ∀ target, (types.get target).isAspect = false →
        ∀ method ∈ (types.get target).methods, matchesPointcut advice.pointcut
              ((types.get target).qualifiedName method) = true →
            boundIn (aspect, advice.name) (processor.woven target method.name) =
              pairs aspect target registrations

section Passing

variable {registrations : List (Option β)} {processor : AspectBeanPostProcessor β κ}

omit [DecidableEq κ] in
theorem Pass.skip (hpass : Pass types registrations processor) :
    Pass types (registrations ++ [none]) processor where
  known := hpass.known
  faithful := hpass.faithful
  layers := hpass.layers
  collected := by
    intro aspect haspect advice hadvice
    simp [hpass.collected aspect haspect advice hadvice]
  paired := by
    intro aspect haspect advice hadvice target htarget method hmethod hmatch
    simp [pairs_concat, hpass.paired aspect haspect advice hadvice target
      htarget method hmethod hmatch]

theorem Pass.collect (hpass : Pass types registrations processor) {bean : β}
    (hbean : (types.get bean).isAspect = true) :
    Pass types (registrations ++ [some bean]) (processor.process types (some bean)) := by
  have hprocess : processor.process types (some bean) = { processor with
        registry := some (register types (processor.registry.getD []) bean)
        aspectTypes := types.classOf bean :: processor.aspectTypes } := by
    simp [AspectBeanPostProcessor.process, AspectBeanPostProcessor.beforeInit,
      AspectBeanPostProcessor.afterInit, hbean]
  rw [hprocess]
  refine ⟨?_, faithful_register hpass.faithful bean, hpass.layers, ?_, ?_⟩
  · intro cls hcls
    rcases mem_cons.mp hcls with rfl | hcls
    · exact hbean
    · exact hpass.known cls hcls
  · intro aspect haspect advice hadvice
    rw [Option.getD_some, bound_register hadvice, hpass.collected aspect haspect advice hadvice]
    by_cases hsame : bean = aspect <;> simp [count_append, hsame]
  · intro aspect haspect advice hadvice target htarget method hmethod hmatch
    have hne : bean ≠ target := by
      intro hsame
      rw [hsame, htarget] at hbean
      cases hbean
    simp [pairs_concat, hne, hpass.paired aspect haspect advice hadvice target
      htarget method hmethod hmatch]

theorem Pass.weave (hpass : Pass types registrations processor) {bean : β}
    (hbean : (types.get bean).isAspect = false) :
    Pass types (registrations ++ [some bean]) (processor.process types (some bean)) := by
  have hunknown : types.classOf bean ∉ processor.aspectTypes := by
    intro hmem
    have haspect := hpass.known _ hmem
    rw [show (types.info (types.classOf bean)).isAspect = false from hbean]
      at haspect
    cases haspect
  have hcount : ∀ aspect, (types.get aspect).isAspect = true →
      (registrations ++ [some bean]).count (some aspect) =
        registrations.count (some aspect) := by
    intro aspect haspect
    have hne : bean ≠ aspect := by
      intro hsame
      rw [hsame, haspect] at hbean
      cases hbean
    simp [count_append, hne]
  cases hregistry : processor.registry with
  | none =>
    have hprocess : processor.process types (some bean) = processor := by
      simp [AspectBeanPostProcessor.process, AspectBeanPostProcessor.beforeInit,
        AspectBeanPostProcessor.afterInit, hbean, hregistry]
    rw [hprocess]
    refine ⟨hpass.known, hpass.faithful, hpass.layers, ?_, ?_⟩
    · intro aspect haspect advice hadvice
      rw [hcount aspect haspect]
      exact hpass.collected aspect haspect advice hadvice
    · intro aspect haspect advice hadvice target htarget method hmethod hmatch
      have hnone := hpass.collected aspect haspect advice hadvice
      rw [hregistry] at hnone
      rw [pairs_concat, ← hnone, hpass.paired aspect haspect advice hadvice
        target htarget method hmethod hmatch]
      simp [bound]
  | some bindings =>
    have hprocess : processor.process types (some bean) = { processor with
          woven := weaveBean types bindings bean processor.woven } := by
      simp [AspectBeanPostProcessor.process, AspectBeanPostProcessor.beforeInit,
        AspectBeanPostProcessor.afterInit, hbean, hregistry, hunknown]
    have hfaithful : Faithful types bindings := by
      simpa [hregistry] using hpass.faithful
    rw [hprocess]
    refine ⟨hpass.known, hpass.faithful, ?_, ?_, ?_⟩
    · exact fun other name =>
        faithful_weaveBean hfaithful hpass.layers bean other name
    · intro aspect haspect advice hadvice
      rw [hcount aspect haspect]
      exact hpass.collected aspect haspect advice hadvice
    · intro aspect haspect advice hadvice target htarget method hmethod hmatch
      have hcollected := hpass.collected aspect haspect advice hadvice
      rw [hregistry, Option.getD_some] at hcollected
      rw [pairs_concat, boundIn_weaveBean hfaithful hadvice bean hmethod
        hmatch, hpass.paired aspect haspect advice hadvice target htarget
          method hmethod hmatch, hcollected]
      simp

end Passing

theorem pass_started (types : BeanTypes β κ) (registrations : List (Option β)) :
    Pass types registrations (started types registrations) := by
  induction registrations using List.reverseRecOn with
  | nil =>
    constructor <;> simp [started, Faithful, bound, boundIn, pairs]
  | append_singleton registrations registration ih =>
    have hconcat : started types (registrations ++ [registration]) =
        (started types registrations).process types registration := by
      simp [started]
    rw [hconcat]
    cases registration with
    | none => exact ih.skip
    | some bean =>
      cases hbean : (types.get bean).isAspect with
      | true => exact ih.collect hbean
      | false => exact ih.weave hbean

end PyFly.Aop
