import Mathlib.Data.List.Basic
import Mathlib.Tactic.Common

/-!
# Chains of around advice

All links of a chain share one join point, and each link overwrites its
`proceed` on entry.  What a second `proceed()` of an outer advice runs is
therefore what the innermost link reached so far was given.
-/

namespace PyFly.Aop

open List

/-- The code of an around advice: it works on the state of the world, calls
`jp.proceed()` and handles its result, and ends. -/
inductive Advice (σ V E : Type)
  | finish (result : Except E V)
  | act (update : σ → σ) (next : σ → Advice σ V E)
  | proceed (resume : Except E V → Advice σ V E)

structure JoinPoint (A V E : Type) where
  args : A
  returnValue : Option V := none
  exception : Option E := none

abbrev Target (σ A V E : Type) := A → σ → Except E V × σ

abbrev Handler (σ A V E : Type) := JoinPoint A V E → σ → Except E Unit × σ

inductive ChainEvent (A : Type)
  | proceeds (advice link : ℕ)
  | target (args : A)
  deriving DecidableEq

/-- What a link leaves: `proceed` is the link in the join point, by the number
of advices from it on, and `0` is the target. -/
structure Ran (σ A V E : Type) where
  result : Except E V
  events : List (ChainEvent A)
  world : σ
  proceed : ℕ

variable {σ A V E : Type}

/-! ## The chain of the weaver -/

/-- An advice with `inner` advices after it, where `invoke` runs a link. -/
def Advice.run (invoke : ℕ → σ → ℕ → Ran σ A V E) (inner : ℕ) :
    Advice σ V E → σ → ℕ → Ran σ A V E
  | .finish result, world, cell => ⟨result, [], world, cell⟩
  | .act update next, world, cell =>
    (next world).run invoke inner (update world) cell
  | .proceed resume, world, cell =>
    let called := invoke cell world cell
    let rest := (resume called.result).run invoke inner called.world
      called.proceed
    { rest with
      events := .proceeds inner cell :: (called.events ++ rest.events) }

def invokeOriginal (target : Target σ A V E) (args : A) (world : σ) (cell : ℕ) : Ran σ A V E :=
  ⟨(target args world).1, [.target args], (target args world).2, cell⟩

/-- The link from which `left` advices are to come: `_make_around_link` sets
`jp.proceed` to the next one. -/
def invokeLink (target : Target σ A V E) (args : A) :
    List (Advice σ V E) → ℕ → σ → ℕ → Ran σ A V E
  | [], _, world, cell => invokeOriginal target args world cell
  | advice :: inner, left, world, cell =>
    if left = inner.length + 1 then
      advice.run (invokeLink target args inner) inner.length world inner.length
    else invokeLink target args inner left world cell

def runChain (advices : List (Advice σ V E)) (target : Target σ A V E)
    (args : A) (world : σ) : Ran σ A V E :=
  invokeLink target args advices advices.length world 0

/-! ## Composition -/

def Advice.around (inner : σ → Except E V × σ) : Advice σ V E → σ → Except E V × σ
  | .finish result, world => (result, world)
  | .act update next, world => (next world).around inner (update world)
  | .proceed resume, world =>
    (resume (inner world).1).around inner (inner world).2

def Advice.proceedsIn (inner : σ → Except E V × σ) : Advice σ V E → σ → List σ
  | .finish _, _ => []
  | .act update next, world => (next world).proceedsIn inner (update world)
  | .proceed resume, world =>
    world :: (resume (inner world).1).proceedsIn inner (inner world).2

def compose (target : Target σ A V E) (args : A) : List (Advice σ V E) → σ → Except E V × σ
  | [] => target args
  | advice :: inner => advice.around (compose target args inner)

def ProceedsOnce (target : Target σ A V E) (args : A) : List (Advice σ V E) → σ → Prop
  | [], _ => True
  | advice :: inner, world => inner ≠ [] →
      (advice.proceedsIn (compose target args inner) world).length ≤ 1 ∧
        ∀ later ∈ advice.proceedsIn (compose target args inner) world,
          ProceedsOnce target args inner later

/-- A `proceed()` runs the next link, the target gets the arguments. -/
def ChainEvent.Right (args : A) : ChainEvent A → Prop
  | .proceeds advice link => link = advice
  | .target passed => passed = args

variable {target : Target σ A V E} {args : A}

variable {cell : ℕ}

theorem Advice.proceed_run_le {invoke : ℕ → σ → ℕ → Ran σ A V E} {bound : ℕ}
    (hinvoke : ∀ left world cell, cell ≤ bound →
      (invoke left world cell).proceed ≤ bound) (inner : ℕ)
    (advice : Advice σ V E) (world : σ) (hproceed : cell ≤ bound) :
    (advice.run invoke inner world cell).proceed ≤ bound := by
  induction advice generalizing world cell with
  | finish result => exact hproceed
  | act update next ih => exact ih world (update world) hproceed
  | proceed resume ih => exact ih _ _ (hinvoke _ _ _ hproceed)

theorem proceed_invokeLink_le (advices : List (Advice σ V E)) {bound : ℕ}
    (left : ℕ) (world : σ) (hproceed : cell ≤ bound)
    (hlength : advices.length ≤ bound + 1) :
    (invokeLink target args advices left world cell).proceed ≤ bound := by
  induction advices generalizing left world cell with
  | nil => exact hproceed
  | cons advice inner ih =>
    simp only [length_cons] at hlength
    unfold invokeLink
    split
    · apply Advice.proceed_run_le
      · intro left world cell hproceed
        exact ih left world hproceed (by omega)
      · omega
    · exact ih left world hproceed (by omega)

theorem invokeLink_length (advice : Advice σ V E)
    (inner : List (Advice σ V E)) (world : σ) (cell : ℕ) :
    invokeLink target args (advice :: inner) (inner.length + 1) world cell =
      advice.run (invokeLink target args inner) inner.length world inner.length := by
  simp [invokeLink]

/-- When the join point no longer has the next link, the events of an advice
are right exactly when it does not proceed any more. -/
theorem Advice.run_spent (advice : Advice σ V E)
    (invoke : ℕ → σ → ℕ → Ran σ A V E) (args : A) {inner : ℕ}
    (body : σ → Except E V × σ) (world : σ) (hspent : cell ≠ inner) :
    ((∀ event ∈ (advice.run invoke inner world cell).events,
        event.Right args) ↔ advice.proceedsIn body world = []) ∧
      (advice.proceedsIn body world = [] → ((advice.run invoke inner world cell).result,
          (advice.run invoke inner world cell).world) = advice.around body world) := by
  induction advice generalizing world with
  | finish result => simp [Advice.run, Advice.proceedsIn, Advice.around]
  | act update next ih => exact ih world (update world)
  | proceed resume ih =>
    simp [Advice.run, Advice.proceedsIn, ChainEvent.Right, hspent]

theorem Advice.run_fresh {inner : List (Advice σ V E)} (hinner : inner ≠ [])
    (hbody : ∀ world cell, ((∀ event ∈ (invokeLink target args inner inner.length world
          cell).events, event.Right args) ↔
        ProceedsOnce target args inner world) ∧
      (ProceedsOnce target args inner world →
        ((invokeLink target args inner inner.length world cell).result,
          (invokeLink target args inner inner.length world cell).world) =
            compose target args inner world))
    (advice : Advice σ V E) (world : σ) :
    let ran := advice.run (invokeLink target args inner) inner.length world
      inner.length
    let worlds := advice.proceedsIn (compose target args inner) world
    ((∀ event ∈ ran.events, event.Right args) ↔ worlds.length ≤ 1 ∧
        ∀ later ∈ worlds, ProceedsOnce target args inner later) ∧
      (worlds.length ≤ 1 ∧ (∀ later ∈ worlds, ProceedsOnce target args inner later) →
        (ran.result, ran.world) = advice.around (compose target args inner) world) := by
  induction advice generalizing world with
  | finish result => simp [Advice.run, Advice.proceedsIn, Advice.around]
  | act update next ih => exact ih world (update world)
  | proceed resume ih =>
    obtain ⟨hright, hresult⟩ := hbody world inner.length
    have hspent : (invokeLink target args inner inner.length world
        inner.length).proceed ≠ inner.length := by
      cases inner with
      | nil => exact absurd rfl hinner
      | cons first others =>
        rw [length_cons, invokeLink_length]
        have hle : (first.run (invokeLink target args others)
            others.length world others.length).proceed ≤ others.length := by
          apply Advice.proceed_run_le
          · intro left world cell hcell
            exact proceed_invokeLink_le others left world hcell (by omega)
          · exact Nat.le_refl _
        omega
    dsimp only [Advice.run, Advice.proceedsIn, Advice.around]
    generalize hcalled : invokeLink target args inner inner.length world
      inner.length = called at hright hresult hspent
    by_cases honce : ProceedsOnce target args inner world
    · have hsame := hresult honce
      obtain ⟨hrest, hend⟩ := (resume called.result).run_spent
        (invokeLink target args inner) args (compose target args inner)
        called.world hspent
      rw [← hsame]
      have hnil : ∀ worlds : List σ, worlds = [] ↔
          (world :: worlds).length ≤ 1 ∧ ∀ later ∈ world :: worlds,
            ProceedsOnce target args inner later := by
        intro worlds
        constructor
        · rintro rfl
          simp [honce]
        · rintro ⟨hlength, -⟩
          simpa using hlength
      have hcalledRight := hright.mpr honce
      constructor
      · rw [← hnil, ← hrest]
        constructor
        · intro hall event hevent
          exact hall event (by simp [hevent])
        · intro hall event hevent
          simp only [mem_cons, mem_append] at hevent
          rcases hevent with rfl | hevent | hevent
          · rfl
          · exact hcalledRight event hevent
          · exact hall event hevent
      · rw [← hnil]
        exact hend
    · constructor
      · constructor
        · intro hall
          exact absurd (hright.mp fun event hevent =>
            hall event (by simp [hevent])) honce
        · rintro ⟨-, hall⟩
          exact absurd (hall world mem_cons_self) honce
      · rintro ⟨-, hall⟩
        exact absurd (hall world mem_cons_self) honce

theorem Advice.run_last (advice : Advice σ V E) (target : Target σ A V E)
    (args : A) (world : σ) :
    let ran := advice.run (invokeLink target args []) 0 world 0
    (∀ event ∈ ran.events, event.Right args) ∧
      (ran.result, ran.world) = advice.around (compose target args []) world := by
  induction advice generalizing world with
  | finish result => simp [Advice.run, Advice.around]
  | act update next ih => exact ih world (update world)
  | proceed resume ih =>
    obtain ⟨hright, hresult⟩ :=
      ih (target args world).1 (target args world).2
    constructor
    · intro event hevent
      simp only [Advice.run, invokeLink, invokeOriginal, mem_cons,
        mem_append, not_mem_nil, or_false] at hevent
      rcases hevent with rfl | rfl | hevent
      · rfl
      · rfl
      · exact hright event hevent
    · exact hresult

theorem invokeLink_composes (target : Target σ A V E) (args : A)
    (advices : List (Advice σ V E)) (world : σ) (cell : ℕ) :
    ((∀ event ∈ (invokeLink target args advices advices.length world
        cell).events, event.Right args) ↔
      ProceedsOnce target args advices world) ∧
    (ProceedsOnce target args advices world →
      ((invokeLink target args advices advices.length world cell).result,
        (invokeLink target args advices advices.length world cell).world) =
          compose target args advices world) := by
  induction advices generalizing world cell with
  | nil =>
    simp [invokeLink, invokeOriginal, ProceedsOnce, ChainEvent.Right, compose]
  | cons advice inner ih =>
    rw [length_cons, invokeLink_length]
    by_cases hinner : inner = []
    · subst hinner
      obtain ⟨hright, hresult⟩ := advice.run_last target args world
      have honce : ProceedsOnce target args [advice] world :=
        fun h => absurd rfl h
      exact ⟨iff_of_true hright honce, fun _ => hresult⟩
    · obtain ⟨hright, hresult⟩ := advice.run_fresh hinner ih world
      have honce : ProceedsOnce target args (advice :: inner) world ↔
          (advice.proceedsIn (compose target args inner) world).length ≤ 1 ∧
            ∀ later ∈ advice.proceedsIn (compose target args inner) world,
              ProceedsOnce target args inner later := by
        simp [ProceedsOnce, hinner]
      rw [honce]
      exact ⟨hright, hresult⟩

/-! ## Wrapped methods -/

structure Wrapper (σ A V E : Type) where
  before : List (Handler σ A V E) := []
  afterReturning : List (Handler σ A V E) := []
  afterThrowing : List (Handler σ A V E) := []
  after : List (Handler σ A V E) := []
  around : List (JoinPoint A V E → Advice σ V E) := []

def runHandlers : List (Handler σ A V E) → Handler σ A V E
  | [], _, world => (.ok (), world)
  | handler :: handlers, jp, world =>
    match handler jp world with
    | (.ok _, world) => runHandlers handlers jp world
    | (.error error, world) => (.error error, world)

namespace Wrapper

variable (wrapper : Wrapper σ A V E)

/-- The `except` clause. -/
def throwing (jp : JoinPoint A V E) (error : E) (world : σ) :
    Except E V × JoinPoint A V E × σ :=
  let jp := { jp with exception := some error }
  match runHandlers wrapper.afterThrowing jp world with
  | (.ok _, world) => (.error error, jp, world)
  | (.error other, world) => (.error other, jp, world)

/-- The `try` and `except` clauses around a body. -/
def guarded (jp : JoinPoint A V E) (body : σ → Except E V × σ) (world : σ) :
    Except E V × JoinPoint A V E × σ :=
  match body world with
  | (.error error, world) => wrapper.throwing jp error world
  | (.ok value, world) =>
    let jp := { jp with returnValue := some value }
    match runHandlers wrapper.afterReturning jp world with
    | (.ok _, world) => (.ok value, jp, world)
    | (.error error, world) => wrapper.throwing jp error world

def frame (body : σ → Except E V × σ) (args : A) (world : σ) : Except E V × σ :=
  let jp : JoinPoint A V E := { args := args }
  match runHandlers wrapper.before jp world with
  | (.error error, world) => (.error error, world)
  | (.ok _, world) =>
    let (result, jp, world) := wrapper.guarded jp body world
    match runHandlers wrapper.after jp world with
    | (.ok _, world) => (result, world)
    | (.error error, world) => (.error error, world)

def advices (args : A) : List (Advice σ V E) :=
  wrapper.around.map fun handler => handler { args := args }

/-- `_build_async_wrapper` -/
def async (target : Target σ A V E) : Target σ A V E := fun args =>
  wrapper.frame (fun world =>
    let ran := runChain (wrapper.advices args) target args world
    (ran.result, ran.world)) args

/-- `_build_sync_wrapper`, which has no around advice. -/
def sync (target : Target σ A V E) : Target σ A V E := fun args =>
  wrapper.frame (target args) args

def entered (args : A) (world : σ) : Option σ :=
  match runHandlers wrapper.before { args := args } world with
  | (.ok _, world) => some world
  | (.error _, _) => none

/-- Each `proceed()` of a call runs the next link and the target gets the
arguments of the call, which ends as the composition does. -/
structure BehavesComposed (target : Target σ A V E) (args : A) (world : σ) :
    Prop where
  links : ∀ entry, wrapper.entered args world = some entry →
    ∀ event ∈ (runChain (wrapper.advices args) target args entry).events, event.Right args
  result : wrapper.async target args world =
    wrapper.frame (compose target args (wrapper.advices args)) args world

variable {wrapper}

theorem frame_congr {body body' : σ → Except E V × σ} {args : A} {world : σ}
    (h : ∀ entry, wrapper.entered args world = some entry → body entry = body' entry) :
    wrapper.frame body args world = wrapper.frame body' args world := by
  cases hbefore : runHandlers wrapper.before { args := args } world with
  | mk result entry =>
    cases result with
    | error error => simp only [frame, hbefore]
    | ok _ =>
      have hsame : body entry = body' entry := by
        apply h
        simp [entered, hbefore]
      simp only [frame, hbefore, guarded, hsame]

/-- A call behaves as the composition exactly when no around advice but the
last one proceeds twice. -/
theorem behavesComposed_iff (wrapper : Wrapper σ A V E)
    (target : Target σ A V E) (args : A) (world : σ) :
    wrapper.BehavesComposed target args world ↔
      ∀ entry, wrapper.entered args world = some entry →
        ProceedsOnce target args (wrapper.advices args) entry := by
  have hchain := fun entry => invokeLink_composes target args (wrapper.advices args) entry 0
  constructor
  · intro h entry hentry
    exact (hchain entry).1.mp (h.links entry hentry)
  · intro honce
    constructor
    · intro entry hentry
      exact (hchain entry).1.mpr (honce entry hentry)
    · apply frame_congr
      intro entry hentry
      exact (hchain entry).2 (honce entry hentry)

end Wrapper

/-! ## A retry around another advice -/

def retry : Advice (List ℕ) ℕ Unit :=
  .proceed fun
    | .ok value => .finish (.ok value)
    | .error _ => .proceed .finish

/-- Notes the call and lets it pass. -/
def audit : Advice (List ℕ) ℕ Unit :=
  .act (1 :: ·) fun _ => .proceed .finish

/-- Fails when it is called for the first time. -/
def flaky : Target (List ℕ) Unit ℕ Unit := fun _ world =>
  if 0 ∈ world then (.ok 7, world) else (.error (), 0 :: world)

def retried : Wrapper (List ℕ) Unit ℕ Unit where
  around := [fun _ => retry, fun _ => audit]

/-- The second attempt of the retry runs the target without the audit. -/
theorem not_behavesComposed_retried : ¬ retried.BehavesComposed flaky () [] := by
  intro h
  have hlinks := h.links [] rfl (.proceeds 1 0) (by decide)
  cases hlinks

end PyFly.Aop
