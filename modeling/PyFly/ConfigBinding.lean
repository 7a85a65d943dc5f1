import PyFly.Config

/-!
# Binding of configuration classes

`bind` reads the fields of a dataclass from the section of its prefix.  A
field has there what `get` finds under its key when no environment variable
overrides the key and neither a placeholder nor `None` is configured; in these
three cases it has it only where the two values are the same.
-/

namespace PyFly.Core

open List

inductive FieldType
  | int
  | float
  | bool
  | other
  deriving DecidableEq, Repr

structure Field (σ : Type) where
  name : List Char
  hint : FieldType
  default : Option (Value σ)
  name_undotted : '.' ∉ name

/-- A dataclass decorated with `@config_properties`. -/
structure ConfigClass (σ : Type) where
  configPrefix : List Char
  fields : List (Field σ)
  names_nodup : (fields.map Field.name).Nodup

namespace Config

variable {σ : Type} (python : Python σ) (environ : Environ)
variable (config : Config σ)

def truthy : List (List Char) :=
  ["true".toList, "1".toList, "yes".toList]

def convert : FieldType → Value σ → Except PyError (Value σ)
  | .int, .text chars => (python.int chars).map .scalar
  | .float, .text chars => (python.float chars).map .scalar
  | .bool, .text chars =>
    .ok (.scalar (python.bool (truthy.contains (python.lower chars))))
  | _, value => .ok value

/-- The loop of `bind` over the fields, with the keyword arguments which it
collects. -/
def collect (values : Entries σ) : List (Field σ) → Except PyError (Entries σ)
  | [] => .ok []
  | field :: fields =>
    match values.lookup field.name with
    | none => collect values fields
    | some value =>
      match convert python field.hint value with
      | .error error => .error error
      | .ok value =>
        match collect values fields with
        | .error error => .error error
        | .ok kwargs => .ok ((field.name, value) :: kwargs)

def construct (fields : List (Field σ)) (kwargs : Entries σ) : Except PyError (Entries σ) :=
  let missing := fields.filter fun field =>
    (kwargs.lookup field.name).isNone && field.default.isNone
  match missing with
  | [] => .ok (fields.map fun field =>
    (field.name, (kwargs.lookup field.name).getD (field.default.getD .null)))
  | _ => .error (.typeError (missing.map Field.name))

def bind (cls : ConfigClass σ) : Except PyError (Entries σ) :=
  match collect python (config.getSection cls.configPrefix) cls.fields with
  | .error error => .error error
  | .ok kwargs => construct cls.fields kwargs

/-! ## The values of the fields -/

/-- The value which `bind` gives a field, if it does not raise at it. -/
def boundValue (cls : ConfigClass σ) (field : Field σ) : Option (Value σ) :=
  match (config.getSection cls.configPrefix).lookup field.name with
  | some value => (convert python field.hint value).toOption
  | none => field.default

/-- `p + '.' + f` -/
def fieldKey (cls : ConfigClass σ) (field : Field σ) : List Char :=
  cls.configPrefix ++ '.' :: field.name

/-- What the priority order promises for a field: the value which `get`
returns, converted to the field's type, and the default when `get` finds
nothing. -/
def valueByGet (cls : ConfigClass σ) (field : Field σ) : Option (Value σ) :=
  match config.get python environ (fieldKey cls field) .null with
  | .error _ => none
  | .ok .null => field.default
  | .ok value => (convert python field.hint value).toOption

def BindFollowsGet (cls : ConfigClass σ) : Prop :=
  ∀ field ∈ cls.fields, config.boundValue python cls field =
      config.valueByGet python environ cls field

/-- The cases in which `bind` and `get` read different values, each with what
makes the values the same. -/
structure FieldAgrees (cls : ConfigClass σ) (field : Field σ) : Prop where
  overridden : ∀ chars, environ (envKey python (fieldKey cls field)) = some chars →
      (convert python field.hint (.text chars)).toOption =
        match (config.getSection cls.configPrefix).lookup field.name with
        | some value => (convert python field.hint value).toOption
        | none => field.default
  placeholder : ∀ chars, environ (envKey python (fieldKey cls field)) = none →
    (config.getSection cls.configPrefix).lookup field.name = some (.text chars) →
    opening <:+: chars → (convert python field.hint (.text chars)).toOption =
        (config.resolvePlaceholders python environ maxLevels chars).toOption.bind fun value =>
            (convert python field.hint (.text value)).toOption
  null : environ (envKey python (fieldKey cls field)) = none →
    (config.getSection cls.configPrefix).lookup field.name = some .null →
      field.default = some .null

section Objects

variable {python}

variable {values : Entries σ} {fields : List (Field σ)}

theorem lookup_collect_of_notMem {kwargs : Entries σ} {name : List Char}
    (h : collect python values fields = .ok kwargs)
    (hname : name ∉ fields.map Field.name) : kwargs.lookup name = none := by
  induction fields generalizing kwargs with
  | nil =>
    obtain rfl : [] = kwargs := Except.ok.inj h
    rfl
  | cons field fields ih =>
    obtain ⟨hfirst, hrest⟩ := not_or.mp (mt mem_cons.mpr hname)
    simp only [collect] at h
    split at h
    · exact ih h hrest
    · split at h
      · cases h
      · split at h
        · cases h
        · rename_i hcollect
          obtain rfl := Except.ok.inj h
          rw [lookup_cons, beq_eq_false_iff_ne.mpr hfirst]
          exact ih hcollect hrest

theorem lookup_collect {kwargs : Entries σ} (hnodup : (fields.map Field.name).Nodup)
    (h : collect python values fields = .ok kwargs) {field : Field σ}
    (hfield : field ∈ fields) :
    (values.lookup field.name = none ∧ kwargs.lookup field.name = none) ∨
      ∃ value bound, values.lookup field.name = some value ∧
        convert python field.hint value = .ok bound ∧
        kwargs.lookup field.name = some bound := by
  induction fields generalizing kwargs with
  | nil => cases hfield
  | cons first fields ih =>
    obtain ⟨hfirst, hrest⟩ := nodup_cons.mp hnodup
    simp only [collect] at h
    split at h
    · rename_i hnone
      obtain rfl | hmem := mem_cons.mp hfield
      · exact .inl ⟨hnone, lookup_collect_of_notMem h hfirst⟩
      · exact ih hrest h hmem
    · rename_i value hvalue
      split at h
      · cases h
      · rename_i bound hbound
        split at h
        · cases h
        · rename_i hcollect
          obtain rfl := Except.ok.inj h
          obtain rfl | hmem := mem_cons.mp hfield
          · exact .inr ⟨value, bound, hvalue, hbound, by simp⟩
          · have hne : field.name ≠ first.name := fun heq =>
              hfirst (heq ▸ mem_map_of_mem hmem)
            rw [lookup_cons, beq_eq_false_iff_ne.mpr hne]
            exact ih hrest hcollect hmem

theorem exists_of_collect_error {error : PyError}
    (h : collect python values fields = .error error) :
    ∃ field ∈ fields, ∃ value, values.lookup field.name = some value ∧
      (convert python field.hint value).toOption = none := by
  induction fields with
  | nil => cases h
  | cons first fields ih =>
    have hlater (h : collect python values fields = .error error) :
        ∃ field ∈ first :: fields, ∃ value, values.lookup field.name = some value ∧
            (convert python field.hint value).toOption = none := by
      obtain ⟨field, hmem, hfield⟩ := ih h
      exact ⟨field, mem_cons_of_mem first hmem, hfield⟩
    simp only [collect] at h
    split at h
    · exact hlater h
    · rename_i value hvalue
      split at h
      · rename_i herror
        exact ⟨first, mem_cons_self, value, hvalue, by rw [herror]; rfl⟩
      · split at h
        · rename_i hcollect
          exact hlater (hcollect.trans h)
        · cases h

theorem mapM_eq_none {α β : Type} {f : α → Option β} {items : List α}
    {item : α} (hitem : item ∈ items) (h : f item = none) :
    items.mapM f = none := by
  induction items with
  | nil => cases hitem
  | cons first items ih =>
    obtain rfl | hmem := mem_cons.mp hitem
    · rw [mapM_cons, h]
      rfl
    · rw [mapM_cons, ih hmem]
      cases f first <;> rfl

theorem mapM_eq_map {α β : Type} {f : α → Option β} {g : α → β}
    {items : List α} (h : ∀ item ∈ items, f item = some (g item)) :
    items.mapM f = some (items.map g) := by
  induction items with
  | nil => rfl
  | cons first items ih =>
    rw [mapM_cons, h first mem_cons_self,
      ih fun item hitem => h item (mem_cons_of_mem first hitem)]
    rfl

/-- `bind` returns the object whose fields have their bound values, and raises
if one of them has none. -/
theorem bind_toOption (cls : ConfigClass σ) :
    (config.bind python cls).toOption = cls.fields.mapM fun field =>
        (config.boundValue python cls field).map (field.name, ·) := by
  unfold bind
  split
  · rename_i hcollect
    obtain ⟨field, hmem, value, hvalue, hnone⟩ :=
      exists_of_collect_error hcollect
    refine (mapM_eq_none hmem ?_).symm
    simp only [boundValue, hvalue, hnone, Option.map_none]
  · rename_i kwargs hcollect
    have hbound {field : Field σ} (hmem : field ∈ cls.fields) :
        config.boundValue python cls field = (kwargs.lookup field.name).or field.default := by
      obtain ⟨hnone, hkwargs⟩ | ⟨value, bound, hvalue, hconvert, hkwargs⟩ :=
        lookup_collect cls.names_nodup hcollect hmem
      · rw [boundValue, hnone, hkwargs, Option.none_or]
      · simp only [boundValue, hvalue, hconvert, hkwargs, Option.some_or]
        rfl
    unfold construct
    dsimp only
    split
    · rename_i hmissing
      refine (mapM_eq_map fun field hmem => ?_).symm
      rw [hbound hmem]
      have hgiven := filter_eq_nil_iff.mp hmissing field hmem
      cases hkwargs : kwargs.lookup field.name with
      | some value => rfl
      | none =>
        cases hdefault : field.default with
        | some value => rfl
        | none => simp [hkwargs, hdefault] at hgiven
    · rename_i hmissing
      obtain ⟨field, hfield⟩ := exists_mem_of_ne_nil _ hmissing
      obtain ⟨hmem, hnone⟩ := mem_filter.mp hfield
      refine (mapM_eq_none hmem ?_).symm
      simp only [Bool.and_eq_true, Option.isNone_iff_eq_none] at hnone
      rw [hbound hmem, hnone.1, hnone.2]
      rfl

end Objects

/-! ## The two lookups of a field -/

theorem walk_fieldKey (cls : ConfigClass σ) (field : Field σ) :
    walk (keyParts (fieldKey cls field)) (.dict config.data) =
      ((config.getSection cls.configPrefix).lookup field.name).getD .null := by
  rw [fieldKey, keyParts_append field.name_undotted, walk_append_singleton]
  rfl

variable {cls : ConfigClass σ} {field : Field σ}

theorem valueByGet_of_override {chars : List Char}
    (h : environ (envKey python (fieldKey cls field)) = some chars) :
    config.valueByGet python environ cls field =
      (convert python field.hint (.text chars)).toOption := by
  rw [valueByGet, get, h]

theorem valueByGet_of_no_override (h : environ (envKey python (fieldKey cls field)) = none) :
    config.valueByGet python environ cls field = match config.resolved python environ .null
        (((config.getSection cls.configPrefix).lookup field.name).getD .null) with
      | .error _ => none
      | .ok .null => field.default
      | .ok value => (convert python field.hint value).toOption := by
  rw [valueByGet, get, h, walk_fieldKey]

@[simp] theorem convert_null (hint : FieldType) :
    convert python hint .null = .ok .null := by
  cases hint <;> rfl

@[simp] theorem convert_scalar (hint : FieldType) (object : σ) :
    convert python hint (.scalar object) = .ok (.scalar object) := by
  cases hint <;> rfl

@[simp] theorem convert_dict (hint : FieldType) (entries : Entries σ) :
    convert python hint (.dict entries) = .ok (.dict entries) := by
  cases hint <;> rfl

/-- Without an override the lookups differ at placeholders and at `None`
only. -/
theorem fieldAgrees_iff_of_no_override
    (h : environ (envKey python (fieldKey cls field)) = none) :
    config.FieldAgrees python environ cls field ↔ (∀ chars,
        (config.getSection cls.configPrefix).lookup field.name = some (.text chars) →
        opening <:+: chars → (convert python field.hint (.text chars)).toOption =
            (config.resolvePlaceholders python environ maxLevels
              chars).toOption.bind fun value =>
                (convert python field.hint (.text value)).toOption) ∧
      ((config.getSection cls.configPrefix).lookup field.name = some .null →
        field.default = some .null) := by
  constructor
  · exact fun hagrees =>
      ⟨fun chars => hagrees.placeholder chars h, hagrees.null h⟩
  · rintro ⟨hplaceholder, hnull⟩
    refine ⟨fun chars hchars => ?_, fun chars _ => hplaceholder chars, fun _ => hnull⟩
    rw [h] at hchars
    cases hchars

/-- The values are the same in all other cases: a field without a configured
value has its default twice, and a configured value without a placeholder is
found by both lookups. -/
theorem bound_eq_valueByGet_iff (cls : ConfigClass σ) (field : Field σ) :
    config.boundValue python cls field = config.valueByGet python environ cls field ↔
      config.FieldAgrees python environ cls field := by
  cases henv : environ (envKey python (fieldKey cls field)) with
  | some chars =>
    rw [valueByGet_of_override python environ config henv]
    constructor
    · intro h
      refine ⟨fun chars' hchars' => ?_, fun _ hnone => ?_, fun hnone => ?_⟩
      · obtain rfl := Option.some.inj (henv.symm.trans hchars')
        exact h.symm
      · rw [henv] at hnone
        cases hnone
      · rw [henv] at hnone
        cases hnone
    · exact fun h => (h.overridden chars henv).symm
  | none =>
    rw [fieldAgrees_iff_of_no_override python environ config henv,
      valueByGet_of_no_override python environ config henv, boundValue]
    cases (config.getSection cls.configPrefix).lookup field.name with
    | none => simp [resolved]
    | some value =>
      cases value with
      | null => simp [resolved, Except.toOption, eq_comm]
      | scalar object => simp [resolved, Except.toOption]
      | dict entries => simp [resolved, Except.toOption]
      | text chars =>
        rw [Option.getD_some]
        by_cases hopening : opening <:+: chars
        · rw [resolved_text_of_opening python environ config _ hopening]
          cases hresolve : config.resolvePlaceholders python environ maxLevels chars with
          | error error =>
            simp [hopening, hresolve, Except.toOption, Except.map]
          | ok value =>
            simp [hopening, hresolve, Except.toOption, Except.map]
        · rw [resolved_text_of_no_opening python environ config _ hopening]
          simp [hopening]

/-- `bind` gives the fields of a class the values of `get`, converted, and the
defaults where `get` finds nothing, if and only if no environment variable and
no placeholder changes a value, and `None` is configured for fields with the
default `None` only. -/
theorem bindFollowsGet_iff_fieldsAgree (cls : ConfigClass σ) :
    config.BindFollowsGet python environ cls ↔
      ∀ field ∈ cls.fields, config.FieldAgrees python environ cls field :=
  forall₂_congr fun field _ =>
    config.bound_eq_valueByGet_iff python environ cls field

/-! ## An overridden port -/

/-- Objects are natural numbers, with `True` for one. -/
def plainPython : Python ℕ where
  upper chars := chars.map Char.toUpper
  upper_ascii _ _ := rfl
  lower chars := chars.map Char.toLower
  strip chars := ((chars.dropWhile Char.isWhitespace).reverse.dropWhile
    Char.isWhitespace).reverse
  truth n := n ≠ 0
  str _ := []
  int chars :=
    if chars ≠ [] ∧ chars.all Char.isDigit then
      .ok (chars.foldl (fun n c => 10 * n + (c.toNat - '0'.toNat)) 0)
    else
      .error (.valueError
        ("invalid literal for int() with base 10: '".toList ++ chars ++ ['\'']))
  float _ := .error (.valueError [])
  bool := Bool.toNat

def portField : Field ℕ where
  name := "port".toList
  hint := .int
  default := some (.scalar 8000)
  name_undotted := by decide

def webProperties : ConfigClass ℕ where
  configPrefix := "pyfly.web".toList
  fields := [portField]
  names_nodup := by decide

def webPortEnviron : Environ := fun name =>
  if name = "PYFLY_WEB_PORT".toList then some "9090".toList else none

/-- `bind` gives the port its default 8000, `get` returns the 9090 of the
environment. -/
theorem not_bindFollowsGet_port : ¬ (Config.mk []).BindFollowsGet plainPython webPortEnviron
      webProperties := by
  intro h
  have hport := h portField mem_cons_self
  have hbound : (Config.mk []).boundValue plainPython webProperties portField =
      some (.scalar 8000) := rfl
  have henv : webPortEnviron (envKey plainPython
      (fieldKey webProperties portField)) = some "9090".toList := by decide
  have hget : (Config.mk []).valueByGet plainPython webPortEnviron
      webProperties portField = some (.scalar 9090) := by
    rw [valueByGet_of_override plainPython webPortEnviron _ henv]
    rfl
  rw [hbound, hget] at hport
  cases hport

end Config

end PyFly.Core
