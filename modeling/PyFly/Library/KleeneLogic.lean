import Mathlib.Order.Basic

/-!
# Three-valued logic

The truth values of SQL conditions: a comparison with a missing value is
neither true nor false.
-/

namespace PyFly.Library

inductive Truth
  | no
  | unknown
  | yes
  deriving DecidableEq, Repr

namespace Truth

def ofBool : Bool → Truth
  | true => yes
  | false => no

def and : Truth → Truth → Truth
  | no, _ => no
  | _, no => no
  | yes, yes => yes
  | _, _ => unknown

def or : Truth → Truth → Truth
  | yes, _ => yes
  | _, yes => yes
  | no, no => no
  | _, _ => unknown

def not : Truth → Truth
  | no => yes
  | unknown => unknown
  | yes => no

def holds (truth : Truth) : Bool :=
  truth = yes

def fails (truth : Truth) : Bool :=
  truth = no

@[simp] theorem holds_ofBool (b : Bool) : (ofBool b).holds = b := by
  cases b <;> rfl

@[simp] theorem fails_ofBool (b : Bool) : (ofBool b).fails = !b := by
  cases b <;> rfl

@[simp] theorem holds_and (s t : Truth) :
    (s.and t).holds = (s.holds && t.holds) := by
  cases s <;> cases t <;> rfl

@[simp] theorem holds_or (s t : Truth) :
    (s.or t).holds = (s.holds || t.holds) := by
  cases s <;> cases t <;> rfl

@[simp] theorem holds_not (t : Truth) : t.not.holds = t.fails := by
  cases t <;> rfl

@[simp] theorem fails_and (s t : Truth) :
    (s.and t).fails = (s.fails || t.fails) := by
  cases s <;> cases t <;> rfl

@[simp] theorem fails_or (s t : Truth) :
    (s.or t).fails = (s.fails && t.fails) := by
  cases s <;> cases t <;> rfl

@[simp] theorem fails_not (t : Truth) : t.not.fails = t.holds := by
  cases t <;> rfl

@[simp] theorem ofBool_and (a b : Bool) :
    (ofBool a).and (ofBool b) = ofBool (a && b) := by
  cases a <;> cases b <;> rfl

@[simp] theorem ofBool_or (a b : Bool) :
    (ofBool a).or (ofBool b) = ofBool (a || b) := by
  cases a <;> cases b <;> rfl

@[simp] theorem ofBool_not (b : Bool) : (ofBool b).not = ofBool (!b) := by
  cases b <;> rfl

theorem holds_eq_true {t : Truth} : t.holds = true ↔ t = yes := by
  simp [holds]

end Truth

end PyFly.Library
