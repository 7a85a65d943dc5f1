import PyFly.ControllerDispatch
import PyFly.Library.ClassHierarchy

/-!
# The handler of an exception

`lazy_endpoint` looks for a handler of an exception first among those of the
controller, then among those of the `@controller_advice` beans, each time from
the longest method resolution order on.
-/

namespace PyFly.Web

open Library List

variable {E τ κ V ω ρ : Type} [DecidableEq τ]

/-- The two places where handlers are looked for. -/
inductive HandlerLevel
  | controller
  | advice
deriving DecidableEq

namespace Dispatcher

def ofHierarchy (hierarchy : ClassHierarchy τ) (typeOf : E → τ)
    (exceptionClass : τ) (formats : ValueFormats E V)
    (adviceBeans : List (Effect E ω (HandlerTable E τ V ω))) :
    Dispatcher E τ V ω where
  formats := formats
  isException exception := exceptionClass ∈ hierarchy.mro (typeOf exception)
  isInstance exception cls := cls ∈ hierarchy.mro (typeOf exception)
  mroLength cls := (hierarchy.mro cls).length
  adviceBeans := adviceBeans

/-! ## Tables -/

variable (app : Dispatcher E τ V ω)

/-- The beans have these attributes when they are asked for one after the
other. -/
def Provide (world after : ω) : List (Effect E ω (HandlerTable E τ V ω)) →
    List (HandlerTable E τ V ω) → Prop
  | [], [] => world = after
  | bean :: beans, table :: tables =>
    ∃ next, bean world = (.ok table, next) ∧ Provide next after beans tables
  | _, _ => False

/-- The handlers of all beans, each of which replaces an earlier one of its
type. -/
def mergedAdvice (tables : List (HandlerTable E τ V ω)) : Dict τ (ExceptionHandler E V ω) :=
  Dict.ofList (tables.flatMap app.collectExceptionHandlers)

def AdviceOf (cached : Option (HandlerTable E τ V ω)) (world after : ω)
    (tables : List (HandlerTable E τ V ω)) : Prop :=
  match cached with
  | none => Provide world after app.adviceBeans tables
  | some handlers => world = after ∧ handlers = app.mostSpecificFirst (app.mergedAdvice tables)

variable {app}

theorem updateAdvice_of_provide {world after : ω}
    {beans : List (Effect E ω (HandlerTable E τ V ω))}
    {tables : List (HandlerTable E τ V ω)}
    (h : Provide world after beans tables)
    (handlers : Dict τ (ExceptionHandler E V ω)) :
    app.updateAdvice handlers beans world =
      (.ok ((tables.flatMap app.collectExceptionHandlers).foldl
        (fun handlers entry => handlers.set entry.1 entry.2) handlers),
        after) := by
  induction beans generalizing tables world handlers with
  | nil =>
    cases tables with
    | nil =>
      cases h
      rfl
    | cons table tables => cases h
  | cons bean beans ih =>
    cases tables with
    | nil => cases h
    | cons table tables =>
      obtain ⟨next, hbean, hrest⟩ := h
      rw [updateAdvice, Effect.andThen_of_ok hbean, ih hrest, flatMap_cons, foldl_append]

theorem getGlobalAdviceHandlers_of_adviceOf {world after : ω}
    {cached : Option (HandlerTable E τ V ω)}
    {tables : List (HandlerTable E τ V ω)}
    (h : app.AdviceOf cached world after tables) :
    app.getGlobalAdviceHandlers cached world =
      (.ok (app.mostSpecificFirst (app.mergedAdvice tables)), after) := by
  cases cached with
  | some handlers =>
    obtain ⟨rfl, rfl⟩ := h
    rfl
  | none => exact Effect.andThen_of_ok (updateAdvice_of_provide h .empty)

/-- A dictionary has one of these entries for each of their types, and no
others. -/
structure Covers (handlers : Dict τ (ExceptionHandler E V ω))
    (entries : HandlerTable E τ V ω) : Prop where
  of_mem : ∀ entry ∈ handlers.items, entry ∈ entries
  mem_keys : ∀ entry ∈ entries, entry.1 ∈ handlers.keys

theorem covers_ofList (entries : HandlerTable E τ V ω) :
    Covers (Dict.ofList entries) entries where
  of_mem _ := Dict.mem_items_ofList
  mem_keys _ h := Dict.mem_keys_ofList.mpr (mem_map_of_mem h)

theorem covers_mergedAdvice (tables : List (HandlerTable E τ V ω)) :
    Covers (app.mergedAdvice tables) tables.flatten where
  of_mem entry h := by
    obtain ⟨table, htable, hentry⟩ :=
      mem_flatMap.mp (Dict.mem_items_ofList h)
    have hattribute := Dict.mem_items_ofList ((mem_insertionSort _).mp hentry)
    exact mem_flatten.mpr ⟨table, htable, hattribute⟩
  mem_keys entry h := by
    obtain ⟨table, htable, hentry⟩ := mem_flatten.mp h
    obtain ⟨kept, hkept, htype⟩ := mem_map.mp ((covers_ofList table).mem_keys entry hentry)
    have hmerged : kept ∈ tables.flatMap app.collectExceptionHandlers :=
      mem_flatMap.mpr ⟨table, htable, (mem_insertionSort _).mpr hkept⟩
    rw [← htype]
    exact (covers_ofList _).mem_keys kept hmerged

/-! ## Selection -/

variable {hierarchy : ClassHierarchy τ} {typeOf : E → τ} {exceptionClass : τ}
  {formats : ValueFormats E V}
  {adviceBeans : List (Effect E ω (HandlerTable E τ V ω))} {exception : E}
  {entries : HandlerTable E τ V ω}

omit [DecidableEq τ] in
structure MostSpecific (hierarchy : ClassHierarchy τ) (typeOf : E → τ)
    (entries : HandlerTable E τ V ω) (exception : E)
    (entry : τ × ExceptionHandler E V ω) : Prop where
  mem : entry ∈ entries
  isInstance : entry.1 ∈ hierarchy.mro (typeOf exception)
  minimal : ∀ other ∈ entries, other.1 ∈ hierarchy.mro (typeOf exception) →
    ¬ hierarchy.StrictSubclass other.1 entry.1

omit [DecidableEq τ] in
def Handles (hierarchy : ClassHierarchy τ) (typeOf : E → τ)
    (entries : HandlerTable E τ V ω) (exception : E) : Prop :=
  ∃ entry ∈ entries, entry.1 ∈ hierarchy.mro (typeOf exception)

theorem mostSpecific_of_handlerFor {handler : ExceptionHandler E V ω}
    {handlers : Dict τ (ExceptionHandler E V ω)}
    (hcovers : Covers handlers entries)
    (hfor : (ofHierarchy hierarchy typeOf exceptionClass formats adviceBeans).handlerFor
      ((ofHierarchy hierarchy typeOf exceptionClass formats
        adviceBeans).mostSpecificFirst handlers) exception = some handler) :
    ∃ entry, MostSpecific hierarchy typeOf entries exception entry ∧ entry.2 = handler := by
  obtain ⟨entry, hfind, rfl⟩ := Option.map_eq_some_iff.mp hfor
  refine ⟨entry, ?_, rfl⟩
  have hmem := (mem_insertionSort _).mp (mem_of_find?_eq_some hfind)
  have hinstance := List.find?_some hfind
  refine ⟨hcovers.of_mem entry hmem, by simpa [ofHierarchy] using hinstance, ?_⟩
  intro other hother hkind
  -- Another handler of the same type may stand in the dictionary.
  obtain ⟨kept, hkept, htype⟩ := mem_map.mp (hcovers.mem_keys other hother)
  rw [← htype] at hkind ⊢
  exact ClassHierarchy.not_strictSubclass_of_find? (pairwise_insertionSort _ _) hfind
    ((mem_insertionSort _).mpr hkept) (by simpa [ofHierarchy] using hkind)

theorem handlerFor_eq_none_iff {handlers : Dict τ (ExceptionHandler E V ω)}
    (hcovers : Covers handlers entries) :
    (ofHierarchy hierarchy typeOf exceptionClass formats adviceBeans).handlerFor
      ((ofHierarchy hierarchy typeOf exceptionClass formats
        adviceBeans).mostSpecificFirst handlers) exception = none ↔
      ¬ Handles hierarchy typeOf entries exception := by
  rw [handlerFor, Option.map_eq_none_iff, List.find?_eq_none]
  constructor
  · intro hnone hhandles
    obtain ⟨entry, hentry, hkind⟩ := hhandles
    obtain ⟨kept, hkept, htype⟩ :=
      mem_map.mp (hcovers.mem_keys entry hentry)
    rw [← htype] at hkind
    exact hnone kept ((mem_insertionSort _).mpr hkept) (by simpa [ofHierarchy] using hkind)
  · intro hnone entry hentry hkind
    have hmem := (mem_insertionSort _).mp hentry
    exact hnone ⟨entry, hcovers.of_mem entry hmem, by simpa [ofHierarchy] using hkind⟩

def dispatched (app : Dispatcher E τ V ω) (accept : Option (List Char))
    (exception : E) (raised after : ω) :
    Option (HandlerLevel × (τ × ExceptionHandler E V ω)) → Except E HttpResponse × ω
  | some (.controller, entry) => app.answer accept entry.2 exception raised
  | some (.advice, entry) => app.answer accept entry.2 exception after
  | none =>
    (.error exception, if app.isException exception then after else raised)

def entriesOf (handlers : HandlerTable E τ V ω) (tables : List (HandlerTable E τ V ω)) :
    HandlerLevel → HandlerTable E τ V ω
  | .controller => handlers
  | .advice => tables.flatten

theorem transGen_errorClasses {sub cls : Bool} (h : Relation.TransGen (fun sub base : Bool =>
      base ∈ if sub then [false] else []) sub cls) :
    sub = true ∧ cls = false := by
  induction h with
  | single hbase => cases sub <;> simp_all
  | tail _ hbase ih => simp_all

/-- `Exception`, and a subclass of it. -/
def errorClasses : ClassHierarchy Bool where
  bases sub := if sub then [false] else []
  mro cls := if cls then [true, false] else [false]
  mro_nodup := by decide
  mem_mro_iff sub cls := by
    rw [Relation.reflTransGen_iff_eq_or_transGen]
    constructor
    · cases sub <;> cases cls <;> simp
      exact .single (by simp)
    · rintro (rfl | hup)
      · cases cls <;> simp
      · obtain ⟨rfl, rfl⟩ := transGen_errorClasses hup
        simp
  acyclic cls hup := by
    obtain ⟨hsub, hcls⟩ := transGen_errorClasses hup
    exact absurd (hsub.symm.trans hcls) (by decide)

end Dispatcher

end PyFly.Web
