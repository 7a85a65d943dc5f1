import PyFly.Library.PatternSubstitution

/-!
# The configuration

The lookups of `Config`: `get` walks a dotted key, after the environment and
before the placeholders in the text which it found, `get_section` walks a
prefix to a dictionary and reads neither.
-/

namespace PyFly.Core

open Library

/-- A loaded value: `None`, a string, a dictionary with string keys, or any
other Python object. -/
inductive Value (σ : Type)
  | null
  | text (chars : List Char)
  | scalar (object : σ)
  | dict (entries : List (List Char × Value σ))

abbrev Entries (σ : Type) : Type := List (List Char × Value σ)

abbrev Environ : Type := List Char → Option (List Char)

inductive PyError
  | valueError (message : List Char)
  | typeError (missing : List (List Char))
  | attributeError
  deriving DecidableEq, Repr

structure Python (σ : Type) where
  upper : List Char → List Char
  upper_ascii : ∀ chars, (∀ c ∈ chars, c.toNat < 128) → upper chars = chars.map Char.toUpper
  lower : List Char → List Char
  strip : List Char → List Char
  truth : σ → Bool
  str : Value σ → List Char
  int : List Char → Except PyError σ
  float : List Char → Except PyError σ
  bool : Bool → σ

structure Config (σ : Type) where
  data : Entries σ

namespace Config

variable {σ : Type} (python : Python σ) (environ : Environ)
variable (config : Config σ)

/-! ## Keys -/

def keyParts (key : List Char) : List (List Char) :=
  key.splitOn '.'

def packageStem : List Char :=
  "pyfly.".toList

def envKey (key : List Char) : List Char :=
  let envBase :=
    if packageStem <+: key then key.drop packageStem.length else key
  "PYFLY_".toList ++ (python.upper envBase).map fun c => if c = '.' ∨ c = '-' then '_' else c

/-- The walk of `get`: a missing part, `None` or a value which is no
dictionary ends it with nothing. -/
def walk : List (List Char) → Value σ → Value σ
  | [], current => current
  | part :: parts, .dict entries =>
    walk parts ((entries.lookup part).getD .null)
  | _ :: _, _ => .null

/-- The walk of `get_section`. -/
def descend : List (List Char) → Value σ → Value σ
  | [], current => current
  | part :: parts, .dict entries =>
    descend parts ((entries.lookup part).getD (.dict []))
  | _ :: _, _ => .dict []

def entriesOf : Value σ → Entries σ
  | .dict entries => entries
  | _ => []

def getSection (stem : List Char) : Entries σ :=
  entriesOf (descend (keyParts stem) (.dict config.data))

/-! ## Placeholders -/

def opening : List Char :=
  ['$', '{']

/-- `\$\{([^}]+)\}` -/
def placeholder : Pattern Char :=
  .enclosed opening '}' []

def depthExceeded (value : List Char) : PyError :=
  .valueError ("Max recursion depth exceeded resolving placeholders in '".toList
    ++ value ++ "'. Check for circular references.".toList)

def unresolved (inner : List Char) : PyError :=
  .valueError ("Cannot resolve placeholder '$\x7b".toList ++ inner ++
    "\x7d': not found in environment or config".toList)

def strOf : Value σ → List Char
  | .text chars => chars
  | value => python.str value

def splitDefault (inner : List Char) : List Char × Option (List Char) :=
  let refKey := inner.takeWhile fun c => c ≠ ':'
  (refKey, if ':' ∈ inner then some (inner.drop (refKey.length + 1)) else none)

/-- `_replace`, with the resolution one level deeper. -/
def replacement (deeper : List Char → Except PyError (List Char))
    (inner : List Char) : Except PyError (List Char) :=
  let (refKey, defaultVal) := splitDefault inner
  match environ refKey with
  | some value => .ok value
  | none =>
    match walk (keyParts refKey) (.dict config.data) with
    | .null =>
      match defaultVal with
      | some value => .ok value
      | none => .error (unresolved inner)
    | current =>
      let resolved := strOf python current
      if opening <:+: resolved then deeper resolved else .ok resolved

/-- `_resolve_placeholders` with the number of levels which are left.  The
replacements are made from left to right, and the first failure is raised. -/
def resolvePlaceholders : ℕ → List Char → Except PyError (List Char)
  | 0, value => .error (depthExceeded value)
  | levels + 1, value =>
    let replace :=
      config.replacement python environ (resolvePlaceholders levels)
    match (placeholder.findAll value).mapM replace with
    | .error error => .error error
    | .ok _ => .ok (placeholder.sub (fun inner => (replace inner).toOption.getD []) value)

/-- `_depth` goes from 0 to 10. -/
def maxLevels : ℕ :=
  11

/-- The end of `get`, at the value where the walk stopped. -/
def resolved (default : Value σ) : Value σ → Except PyError (Value σ)
  | .null => .ok default
  | .text chars =>
    if opening <:+: chars then
      (config.resolvePlaceholders python environ maxLevels chars).map .text
    else .ok (.text chars)
  | value => .ok value

def get (key : List Char) (default : Value σ) : Except PyError (Value σ) :=
  match environ (envKey python key) with
  | some value => .ok (.text value)
  | none =>
    config.resolved python environ default (walk (keyParts key) (.dict config.data))

/-! ## Walks -/

theorem resolved_text_of_opening (default : Value σ) {chars : List Char}
    (h : opening <:+: chars) :
    config.resolved python environ default (.text chars) =
      (config.resolvePlaceholders python environ maxLevels chars).map .text :=
  if_pos h

theorem resolved_text_of_no_opening (default : Value σ) {chars : List Char}
    (h : ¬ opening <:+: chars) :
    config.resolved python environ default (.text chars) = .ok (.text chars) :=
  if_neg h

@[simp] theorem walk_null (parts : List (List Char)) :
    walk parts (.null : Value σ) = .null := by
  cases parts <;> rfl

@[simp] theorem descend_empty (parts : List (List Char)) :
    descend parts (.dict [] : Value σ) = .dict [] := by
  induction parts with
  | nil => rfl
  | cons part parts ih => exact ih

theorem walk_append_singleton (parts : List (List Char)) (name : List Char) (value : Value σ) :
    walk (parts ++ [name]) value =
      ((entriesOf (descend parts value)).lookup name).getD .null := by
  induction parts generalizing value with
  | nil =>
    cases value with
    | dict entries => rfl
    | null => rfl
    | text chars => rfl
    | scalar object => rfl
  | cons part parts ih =>
    cases value with
    | dict entries =>
      have hstep : walk (part :: parts ++ [name]) (.dict entries) =
          walk (parts ++ [name]) ((entries.lookup part).getD .null) := rfl
      have hsection : descend (part :: parts) (.dict entries) =
          descend parts ((entries.lookup part).getD (.dict [])) := rfl
      rw [hstep, hsection]
      cases entries.lookup part with
      | none => simp [entriesOf]
      | some next => exact ih next
    | null => rfl
    | text chars => rfl
    | scalar object => rfl

theorem keyParts_append {name : List Char} (hname : '.' ∉ name) (stem : List Char) :
    keyParts (stem ++ '.' :: name) = keyParts stem ++ [name] := by
  have hlast : keyParts name = [name] := List.splitOn_eq_singleton hname
  rw [keyParts, List.splitOn_append_cons_self]
  exact congrArg _ hlast

end Config

end PyFly.Core
