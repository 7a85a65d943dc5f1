import Mathlib.Data.List.Basic
import Mathlib.Tactic.Common

/-!
# Machines driven by an arbitrary schedule

A machine offers a partial step for every scheduling choice and publishes a
list of events with each step.  A schedule is any list of choices; a choice
that is not enabled is skipped, so every list is a legal schedule and a
statement about all lists is a statement about all interleavings.
-/

namespace PyFly.Library

open List

variable {σ π ε σ' ε' : Type*}

/-- A partial transition function which emits events. -/
structure Machine (σ π ε : Type*) where
  step : σ → π → Option (σ × List ε)

/-- A state together with everything emitted on the way to it. -/
structure Execution (σ ε : Type*) where
  state : σ
  trace : List ε

namespace Machine

variable (machine : Machine σ π ε)

def advance (execution : Execution σ ε) (pick : π) : Execution σ ε :=
  match machine.step execution.state pick with
  | none => execution
  | some (next, events) => ⟨next, execution.trace ++ events⟩

def runFrom (execution : Execution σ ε) (schedule : List π) : Execution σ ε :=
  schedule.foldl machine.advance execution

def run (initial : σ) (schedule : List π) : Execution σ ε :=
  machine.runFrom ⟨initial, []⟩ schedule

variable {machine}

variable {execution : Execution σ ε} {pick : π}

theorem advance_of_step {next : σ} {events : List ε}
    (hstep : machine.step execution.state pick = some (next, events)) :
    machine.advance execution pick = ⟨next, execution.trace ++ events⟩ := by
  simp [advance, hstep]

theorem advance_of_disabled (hstep : machine.step execution.state pick = none) :
    machine.advance execution pick = execution := by
  simp [advance, hstep]

@[simp] theorem runFrom_nil (execution : Execution σ ε) :
    machine.runFrom execution [] = execution := rfl

@[simp] theorem runFrom_cons (execution : Execution σ ε) (pick : π)
    (rest : List π) :
    machine.runFrom execution (pick :: rest) =
      machine.runFrom (machine.advance execution pick) rest := rfl

theorem runFrom_append (execution : Execution σ ε) (first second : List π) :
    machine.runFrom execution (first ++ second) =
      machine.runFrom (machine.runFrom execution first) second := by
  simp [runFrom, foldl_append]

variable {schedule : List π}

theorem runFrom_snoc {state next : σ} {trace events : List ε}
    (hrun : machine.runFrom execution schedule = ⟨state, trace⟩)
    (hstep : machine.step state pick = some (next, events)) :
    machine.runFrom execution (schedule ++ [pick]) = ⟨next, trace ++ events⟩ := by
  rw [runFrom_append, hrun, runFrom_cons, advance_of_step hstep]
  rfl

/-! ## Invariants of whole runs -/

def Meets (machine : Machine σ π ε) (Allowed : σ → π → Prop) : Execution σ ε → List π → Prop
  | _, [] => True
  | execution, pick :: rest =>
    Allowed execution.state pick ∧ machine.Meets Allowed (machine.advance execution pick) rest

theorem meets_of_forall {Allowed : σ → π → Prop}
    (hallowed : ∀ pick ∈ schedule, ∀ state, Allowed state pick)
    (execution : Execution σ ε) :
    machine.Meets Allowed execution schedule := by
  induction schedule generalizing execution with
  | nil => trivial
  | cons pick rest ih =>
    refine ⟨hallowed pick mem_cons_self _, ?_⟩
    exact ih (fun other hmem =>
      hallowed other (mem_cons_of_mem _ hmem)) _

theorem runFrom_invariant_of_meets (Good : σ → List ε → Prop) (Allowed : σ → π → Prop)
    (hstep : ∀ state trace pick next events, Good state trace →
      Allowed state pick → machine.step state pick = some (next, events) →
      Good next (trace ++ events))
    (hgood : Good execution.state execution.trace)
    (hmeets : machine.Meets Allowed execution schedule) :
    Good (machine.runFrom execution schedule).state
      (machine.runFrom execution schedule).trace := by
  induction schedule generalizing execution with
  | nil => exact hgood
  | cons pick rest ih =>
    obtain ⟨hpick, hrest⟩ := hmeets
    rw [runFrom_cons]
    apply ih _ hrest
    cases hnext : machine.step execution.state pick with
    | none =>
      rw [advance_of_disabled hnext]
      exact hgood
    | some result =>
      rw [advance_of_step hnext]
      exact hstep _ _ _ _ _ hgood hpick hnext

theorem runFrom_invariant_of_allowed (Good : σ → List ε → Prop) (Allowed : π → Prop)
    (hstep : ∀ state trace pick next events, Good state trace →
      Allowed pick → machine.step state pick = some (next, events) →
      Good next (trace ++ events))
    (hgood : Good execution.state execution.trace)
    (hallowed : ∀ pick ∈ schedule, Allowed pick) :
    Good (machine.runFrom execution schedule).state
      (machine.runFrom execution schedule).trace :=
  runFrom_invariant_of_meets Good (fun _ pick => Allowed pick) hstep hgood
    (meets_of_forall (fun pick hmem _ => hallowed pick hmem) execution)

theorem runFrom_invariant (Good : σ → List ε → Prop)
    (hstep : ∀ state trace pick next events, Good state trace →
      machine.step state pick = some (next, events) →
      Good next (trace ++ events))
    (hgood : Good execution.state execution.trace) (schedule : List π) :
    Good (machine.runFrom execution schedule).state
      (machine.runFrom execution schedule).trace :=
  runFrom_invariant_of_allowed Good (fun _ => True)
    (fun state trace pick next events hgood _ =>
      hstep state trace pick next events hgood)
    hgood fun _ _ => trivial

theorem run_invariant (Good : σ → List ε → Prop) {initial : σ} (hinitial : Good initial [])
    (hstep : ∀ state trace pick next events, Good state trace →
      machine.step state pick = some (next, events) →
      Good next (trace ++ events))
    (schedule : List π) :
    Good (machine.run initial schedule).state (machine.run initial schedule).trace :=
  runFrom_invariant Good hstep hinitial schedule

/-- A property which a step keeps exactly when its choice is allowed holds at
every point of a schedule exactly when all its choices are allowed. -/
theorem forall_prefix_iff_meets (Good Safe : Execution σ ε → Prop) {Allowed : σ → π → Prop}
    (hgood : ∀ execution pick next events, Good execution →
      machine.step execution.state pick = some (next, events) →
        Good ⟨next, execution.trace ++ events⟩)
    (hsafe : ∀ execution pick next events, Good execution → Safe execution →
      machine.step execution.state pick = some (next, events) →
        (Safe ⟨next, execution.trace ++ events⟩ ↔ Allowed execution.state pick))
    (hidle : ∀ state pick, machine.step state pick = none →
      Allowed state pick) (hexecution : Good execution)
    (hstart : Safe execution) (schedule : List π) :
    (∀ front, front <+: schedule → Safe (machine.runFrom execution front)) ↔
      machine.Meets Allowed execution schedule := by
  induction schedule generalizing execution with
  | nil =>
    refine ⟨fun _ => trivial, fun _ front hfront => ?_⟩
    rw [prefix_nil.mp hfront]
    exact hstart
  | cons pick rest ih =>
    have hnext : Good (machine.advance execution pick) ∧
        (Safe (machine.advance execution pick) ↔ Allowed execution.state pick) := by
      cases hstep : machine.step execution.state pick with
      | none =>
        rw [advance_of_disabled hstep]
        exact ⟨hexecution, iff_of_true hstart (hidle _ _ hstep)⟩
      | some result =>
        rw [advance_of_step hstep]
        exact ⟨hgood _ _ _ _ hexecution hstep, hsafe _ _ _ _ hexecution hstart hstep⟩
    constructor
    · intro hall
      have hsafe : Safe (machine.advance execution pick) :=
        hall [pick] ⟨rest, rfl⟩
      refine ⟨hnext.2.mp hsafe, (ih hnext.1 hsafe).mp ?_⟩
      intro front hfront
      exact hall (pick :: front) (cons_prefix_cons.mpr ⟨rfl, hfront⟩)
    · rintro ⟨hpick, hrest⟩ front hfront
      cases front with
      | nil => exact hstart
      | cons head front =>
        obtain ⟨hhead, htail⟩ := cons_prefix_cons.mp hfront
        rw [hhead, runFrom_cons]
        exact (ih hnext.1 (hnext.2.mpr hpick)).mpr hrest front htail

def Alike {ο : Type*} (Related : σ → σ' → Prop) (observe : List ε → List ο)
    (observe' : List ε' → List ο) :
    Option (σ × List ε) → Option (σ' × List ε') → Prop
  | none, none => True
  | some (next, events), some (next', events') =>
    Related next next' ∧ observe events = observe' events'
  | _, _ => False

theorem runFrom_lockstep {other : Machine σ' π ε'} {ο : Type*}
    (Related : σ → σ' → Prop) (observe : List ε → List ο)
    (observe' : List ε' → List ο) (Allowed : π → Prop)
    (hobserve : ∀ first second, observe (first ++ second) = observe first ++ observe second)
    (hobserve' : ∀ first second, observe' (first ++ second) = observe' first ++ observe' second)
    (hstep : ∀ state state' pick, Related state state' → Allowed pick →
      Alike Related observe observe' (machine.step state pick)
        (other.step state' pick)) {execution' : Execution σ' ε'}
    (hrelated : Related execution.state execution'.state)
    (hsame : observe execution.trace = observe' execution'.trace)
    (hallowed : ∀ pick ∈ schedule, Allowed pick) :
    Related (machine.runFrom execution schedule).state
        (other.runFrom execution' schedule).state ∧
      observe (machine.runFrom execution schedule).trace =
        observe' (other.runFrom execution' schedule).trace := by
  induction schedule generalizing execution execution' with
  | nil => exact ⟨hrelated, hsame⟩
  | cons pick rest ih =>
    have hpick := hstep _ _ pick hrelated (hallowed pick mem_cons_self)
    have hrest : ∀ other ∈ rest, Allowed other :=
      fun other hmem => hallowed other (mem_cons_of_mem _ hmem)
    rw [runFrom_cons, runFrom_cons]
    cases hleft : machine.step execution.state pick with
    | none =>
      cases hright : other.step execution'.state pick with
      | none =>
        rw [advance_of_disabled hleft, advance_of_disabled hright]
        exact ih hrelated hsame hrest
      | some result' => simp [hleft, hright, Alike] at hpick
    | some result =>
      cases hright : other.step execution'.state pick with
      | none => simp [hleft, hright, Alike] at hpick
      | some result' =>
        simp only [hleft, hright, Alike] at hpick
        rw [advance_of_step hleft, advance_of_step hright]
        refine ih hpick.1 ?_ hrest
        rw [hobserve, hobserve', hsame, hpick.2]

theorem exists_schedule_to_final (Good : σ → List ε → Prop)
    (Final : σ → Prop) (Allowed : π → Prop) (rank : σ → ℕ)
    (hstep : ∀ state trace pick next events, Good state trace →
      Allowed pick → machine.step state pick = some (next, events) →
      Good next (trace ++ events) ∧ rank next < rank state)
    (hprogress : ∀ state trace, Good state trace → ¬ Final state →
      ∃ pick next events, Allowed pick ∧ machine.step state pick = some (next, events))
    (execution : Execution σ ε)
    (hgood : Good execution.state execution.trace) :
    ∃ schedule : List π, (∀ pick ∈ schedule, Allowed pick) ∧
      Final (machine.runFrom execution schedule).state := by
  induction hrank : rank execution.state using Nat.strongRecOn generalizing execution with
  | _ bound ih =>
    by_cases hfinal : Final execution.state
    · refine ⟨[], ?_, hfinal⟩
      intro pick hmem
      cases hmem
    · obtain ⟨pick, next, events, hallowed, hnext⟩ :=
        hprogress _ _ hgood hfinal
      obtain ⟨hnextGood, hlower⟩ := hstep _ _ _ _ _ hgood hallowed hnext
      obtain ⟨schedule, hschedule, hreached⟩ :=
        ih (rank next) (hrank ▸ hlower) ⟨next, execution.trace ++ events⟩ hnextGood rfl
      refine ⟨pick :: schedule, ?_, ?_⟩
      · intro other hmem
        rcases mem_cons.mp hmem with hhead | htail
        · rw [hhead]
          exact hallowed
        · exact hschedule other htail
      · rw [runFrom_cons, advance_of_step hnext]
        exact hreached

end Machine

end PyFly.Library
