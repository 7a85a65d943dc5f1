import Mathlib.Data.List.Nodup
import Mathlib.Tactic.Common

/-!
# Insertion-ordered dictionaries

A dictionary remembers the order in which its keys were first written:
writing a present key changes the value in place, writing an absent key
appends.  The keys are distinct by construction, so no later argument has to
re-establish that a key occurs only once.
-/

namespace PyFly.Library

open List

variable {κ υ ω : Type*}

structure Dict (κ υ : Type*) where
  items : List (κ × υ)
  nodupKeys : (items.map Prod.fst).Nodup

namespace Dict

def empty : Dict κ υ := ⟨[], nodup_nil⟩

def keys (dict : Dict κ υ) : List κ := dict.items.map Prod.fst

def values (dict : Dict κ υ) : List υ := dict.items.map Prod.snd

def mapValues (f : κ → υ → ω) (dict : Dict κ υ) : Dict κ ω where
  items := dict.items.map fun item => (item.1, f item.1 item.2)
  nodupKeys := by
    simpa [map_map, Function.comp_def] using dict.nodupKeys

def filterMapValues (f : κ → υ → Option ω) (dict : Dict κ υ) : Dict κ ω where
  items := dict.items.filterMap fun item =>
    (f item.1 item.2).map fun value => (item.1, value)
  nodupKeys := by
    refine dict.nodupKeys.sublist ?_
    induction dict.items with
    | nil => exact List.Sublist.refl _
    | cons item rest ih =>
      cases hvalue : f item.1 item.2 with
      | none =>
        rw [filterMap_cons_none (by rw [hvalue]; rfl)]
        exact ih.cons _
      | some value =>
        rw [filterMap_cons_some (by rw [hvalue]; rfl)]
        exact ih.cons_cons _

section Lookup

variable [DecidableEq κ]

def get? (dict : Dict κ υ) (key : κ) : Option υ :=
  (dict.items.find? fun item => item.1 = key).map Prod.snd

def set (dict : Dict κ υ) (key : κ) (value : υ) : Dict κ υ :=
  if h : key ∈ dict.items.map Prod.fst then
    { items := dict.items.map fun item =>
        if item.1 = key then (key, value) else item
      nodupKeys := by
        have hkeys : (dict.items.map fun item =>
              if item.1 = key then (key, value) else item).map Prod.fst =
              dict.items.map Prod.fst := by
          rw [map_map]
          apply map_congr_left
          intro item _
          by_cases hitem : item.1 = key <;> simp [hitem]
        rw [hkeys]
        exact dict.nodupKeys }
  else
    { items := dict.items ++ [(key, value)]
      nodupKeys := by
        simpa [nodup_append] using
          And.intro dict.nodupKeys fun other value' hmem heq =>
            h (mem_map.mpr ⟨(other, value'), hmem, heq⟩) }

end Lookup

@[simp] theorem keys_empty : (empty : Dict κ υ).keys = [] := rfl

theorem keys_nodup (dict : Dict κ υ) : dict.keys.Nodup := dict.nodupKeys

@[simp] theorem keys_mapValues (f : κ → υ → ω) (dict : Dict κ υ) :
    (dict.mapValues f).keys = dict.keys := by
  simp [keys, mapValues, map_map, Function.comp_def]

variable [DecidableEq κ]

@[simp] theorem get?_empty (key : κ) : (empty : Dict κ υ).get? key = none := rfl

variable {dict : Dict κ υ} {key : κ} {value : υ}

theorem get?_eq_some_iff : dict.get? key = some value ↔ (key, value) ∈ dict.items := by
  constructor
  · intro h
    obtain ⟨item, hfind, hvalue⟩ := Option.map_eq_some_iff.mp h
    have hkey : item.1 = key := by simpa using List.find?_some hfind
    have hitem : item = (key, value) := Prod.ext hkey hvalue
    exact hitem ▸ mem_of_find?_eq_some hfind
  · intro hmem
    unfold get?
    cases hfind : dict.items.find? fun item => item.1 = key with
    | none =>
      have hnone := List.find?_eq_none.mp hfind _ hmem
      simp at hnone
    | some item =>
      have hkey : item.1 = key := by simpa using List.find?_some hfind
      have hsame : item = (key, value) :=
        inj_on_of_nodup_map dict.nodupKeys (mem_of_find?_eq_some hfind) hmem hkey
      simp [hsame]

theorem exists_get?_of_mem_values (h : value ∈ dict.values) :
    ∃ key, dict.get? key = some value := by
  obtain ⟨⟨key, found⟩, hitem, rfl⟩ := mem_map.mp h
  exact ⟨key, get?_eq_some_iff.mpr hitem⟩

theorem get?_eq_none_iff : dict.get? key = none ↔ key ∉ dict.keys := by
  simp only [get?, keys, Option.map_eq_none_iff, List.find?_eq_none,
    decide_eq_true_eq, mem_map, not_exists, not_and]

theorem mem_keys_iff : key ∈ dict.keys ↔ ∃ value, dict.get? key = some value := by
  rw [← not_iff_not, ← get?_eq_none_iff, ← Option.ne_none_iff_exists']
  simp

theorem mem_keys_of_get? (h : dict.get? key = some value) : key ∈ dict.keys :=
  mem_keys_iff.mpr ⟨value, h⟩

theorem keys_set_of_mem (h : key ∈ dict.keys) (value : υ) :
    (dict.set key value).keys = dict.keys := by
  unfold set
  rw [dif_pos (show key ∈ dict.items.map Prod.fst from h)]
  simp only [keys, map_map]
  apply map_congr_left
  intro item _
  by_cases hitem : item.1 = key <;> simp [hitem]

theorem keys_set_of_notMem (h : key ∉ dict.keys) (value : υ) :
    (dict.set key value).keys = dict.keys ++ [key] := by
  unfold set
  rw [dif_neg (show key ∉ dict.items.map Prod.fst from h)]
  simp [keys]

theorem items_set_of_notMem (h : key ∉ dict.keys) (value : υ) :
    (dict.set key value).items = dict.items ++ [(key, value)] := by
  unfold set
  rw [dif_neg (show key ∉ dict.items.map Prod.fst from h)]

variable {other : κ}

theorem mem_keys_set : other ∈ (dict.set key value).keys ↔ other = key ∨ other ∈ dict.keys := by
  by_cases h : key ∈ dict.keys
  · rw [keys_set_of_mem h]
    constructor
    · exact Or.inr
    · rintro (rfl | hother)
      · exact h
      · exact hother
  · rw [keys_set_of_notMem h]
    simp [or_comm]

variable {item : κ × υ}

theorem mem_items_set (h : item ∈ (dict.set key value).items) :
    item = (key, value) ∨ item ∈ dict.items := by
  unfold set at h
  split at h
  · obtain ⟨other, hmem, hitem⟩ := mem_map.mp h
    by_cases hkey : other.1 = key
    · rw [if_pos hkey] at hitem
      exact Or.inl hitem.symm
    · rw [if_neg hkey] at hitem
      exact Or.inr (hitem ▸ hmem)
  · rcases mem_append.mp h with hold | hnew
    · exact Or.inr hold
    · exact Or.inl (mem_singleton.mp hnew)

@[simp] theorem get?_set_self (dict : Dict κ υ) (key : κ) (value : υ) :
    (dict.set key value).get? key = some value := by
  rw [get?_eq_some_iff]
  unfold set
  split
  · next h =>
      obtain ⟨item, hmem, hkey⟩ := mem_map.mp h
      exact mem_map.mpr ⟨item, hmem, by simp [hkey]⟩
  · simp

theorem get?_set_of_ne (hne : other ≠ key) (value : υ) :
    (dict.set key value).get? other = dict.get? other := by
  apply Option.ext
  intro found
  rw [get?_eq_some_iff, get?_eq_some_iff]
  unfold set
  split
  · rw [mem_map]
    constructor
    · rintro ⟨item, hmem, heq⟩
      by_cases hitem : item.1 = key
      · rw [if_pos hitem] at heq
        exact absurd (Prod.mk.inj heq).1.symm hne
      · rw [if_neg hitem] at heq
        exact heq ▸ hmem
    · intro hmem
      exact ⟨(other, found), hmem, by simp [hne]⟩
  · simp [hne]

theorem get?_mapValues (f : κ → υ → ω) (dict : Dict κ υ) (key : κ) :
    (dict.mapValues f).get? key = (dict.get? key).map (f key) := by
  apply Option.ext
  intro found
  rw [get?_eq_some_iff, Option.map_eq_some_iff]
  simp only [mapValues, mem_map, Prod.mk.injEq, Prod.exists]
  constructor
  · rintro ⟨_, value, hmem, rfl, rfl⟩
    exact ⟨value, get?_eq_some_iff.mpr hmem, rfl⟩
  · rintro ⟨value, hget, rfl⟩
    exact ⟨key, value, get?_eq_some_iff.mp hget, rfl, rfl⟩

theorem get?_filterMapValues (f : κ → υ → Option ω) (dict : Dict κ υ) (key : κ) :
    (dict.filterMapValues f).get? key = (dict.get? key).bind (f key) := by
  apply Option.ext
  intro found
  rw [get?_eq_some_iff, Option.bind_eq_some_iff]
  simp only [filterMapValues, mem_filterMap, Option.map_eq_some_iff, Prod.mk.injEq, Prod.exists]
  constructor
  · intro h
    obtain ⟨_, value, hmem, _, hvalue, rfl, rfl⟩ := h
    exact ⟨value, get?_eq_some_iff.mpr hmem, hvalue⟩
  · intro h
    obtain ⟨value, hget, hvalue⟩ := h
    exact ⟨key, value, get?_eq_some_iff.mp hget, found, hvalue, rfl, rfl⟩

/-- `dict.setdefault`. -/
def setDefault (dict : Dict κ υ) (key : κ) (value : υ) : Dict κ υ :=
  if key ∈ dict.keys then dict else dict.set key value

theorem get?_setDefault_of_mem (h : key ∈ dict.keys) (other : κ) (value : υ) :
    (dict.setDefault key value).get? other = dict.get? other := by
  rw [setDefault, if_pos h]

theorem get?_setDefault_of_ne (hne : other ≠ key) (value : υ) :
    (dict.setDefault key value).get? other = dict.get? other := by
  unfold setDefault
  split
  · rfl
  · exact get?_set_of_ne hne value

theorem get?_foldl_setDefault (pairs : List (κ × υ)) (dict : Dict κ υ) (key : κ) :
    (pairs.foldl (fun dict pair => dict.setDefault pair.1 pair.2) dict).get? key =
      (dict.get? key).or ((pairs.find? fun pair => pair.1 = key).map Prod.snd) := by
  induction pairs generalizing dict with
  | nil => simp
  | cons pair pairs ih =>
    rw [foldl_cons, ih]
    by_cases hkey : pair.1 = key
    · subst hkey
      cases hget : dict.get? pair.1 with
      | some value =>
        rw [get?_setDefault_of_mem (mem_keys_of_get? hget), hget]
        rfl
      | none =>
        rw [setDefault, if_neg (get?_eq_none_iff.mp hget), get?_set_self]
        simp
    · rw [get?_setDefault_of_ne (Ne.symm hkey)]
      simp [hkey]

/-- `del dict[key]`, for a key which may be absent. -/
def erase (dict : Dict κ υ) (key : κ) : Dict κ υ where
  items := dict.items.filter fun item => item.1 ≠ key
  nodupKeys := dict.nodupKeys.sublist (filter_sublist.map _)

theorem mem_items_erase : item ∈ (dict.erase key).items ↔ item ∈ dict.items ∧ item.1 ≠ key := by
  simp [erase]

theorem mem_keys_erase : other ∈ (dict.erase key).keys ↔ other ∈ dict.keys ∧ other ≠ key := by
  simp only [keys, mem_map, mem_items_erase]
  constructor
  · rintro ⟨item, ⟨hmem, hne⟩, rfl⟩
    exact ⟨⟨item, hmem, rfl⟩, hne⟩
  · rintro ⟨⟨item, hmem, rfl⟩, hne⟩
    exact ⟨item, ⟨hmem, hne⟩, rfl⟩

theorem get?_erase (dict : Dict κ υ) (key other : κ) :
    (dict.erase key).get? other = if other = key then none else dict.get? other := by
  apply Option.ext
  intro value
  rw [get?_eq_some_iff, mem_items_erase]
  split
  · rename_i heq
    simp [heq]
  · rename_i hne
    rw [get?_eq_some_iff]
    exact and_iff_left hne

theorem get?_foldl_erase (keys : List κ) (dict : Dict κ υ) (key : κ) :
    (keys.foldl erase dict).get? key = if key ∈ keys then none else dict.get? key := by
  induction keys generalizing dict with
  | nil => rfl
  | cons first rest ih =>
    rw [foldl_cons, ih, get?_erase]
    by_cases hrest : key ∈ rest
    · simp [hrest]
    · by_cases hfirst : key = first
      · simp [hfirst]
      · simp [hrest, hfirst]

theorem mem_items_foldl_erase {keys : List κ} (h : item ∈ (keys.foldl erase dict).items) :
    item ∈ dict.items := by
  induction keys generalizing dict with
  | nil => exact h
  | cons key rest ih => exact (mem_items_erase.mp (ih h)).1

omit [DecidableEq κ] in
theorem ext {dict' : Dict κ υ} (h : dict.items = dict'.items) : dict = dict' := by
  cases dict
  cases dict'
  cases h
  rfl

def restrict (kind : κ → Bool) (dict : Dict κ υ) : Dict κ υ where
  items := dict.items.filter fun item => kind item.1
  nodupKeys := dict.nodupKeys.sublist (filter_sublist.map _)

variable {kind : κ → Bool}

omit [DecidableEq κ] in
theorem mem_items_restrict : item ∈ (dict.restrict kind).items ↔
      item ∈ dict.items ∧ kind item.1 = true :=
  mem_filter

omit [DecidableEq κ] in
theorem restrict_restrict (kind kind' : κ → Bool) (dict : Dict κ υ) :
    (dict.restrict kind).restrict kind' = dict.restrict fun key => kind key && kind' key := by
  apply ext
  simp only [restrict, filter_filter]
  congr 1
  funext item
  exact Bool.and_comm _ _

omit [DecidableEq κ] in
theorem restrict_of_forall (h : ∀ key ∈ dict.keys, kind key = true) :
    dict.restrict kind = dict := by
  apply ext
  refine filter_eq_self.mpr ?_
  intro item hitem
  exact h item.1 (mem_map.mpr ⟨item, hitem, rfl⟩)

theorem erase_eq_restrict (dict : Dict κ υ) (key : κ) :
    dict.erase key = dict.restrict fun other => other ≠ key := by
  apply ext
  rfl

theorem get?_restrict (kind : κ → Bool) (dict : Dict κ υ) (key : κ) :
    (dict.restrict kind).get? key = if kind key = true then dict.get? key else none := by
  apply Option.ext
  intro value
  rw [get?_eq_some_iff, mem_items_restrict]
  split
  · rename_i hkind
    rw [get?_eq_some_iff]
    exact and_iff_left hkind
  · rename_i hkind
    simp [hkind]

theorem restrict_set_of_pos (h : kind key = true) (dict : Dict κ υ) (value : υ) :
    (dict.set key value).restrict kind = (dict.restrict kind).set key value := by
  apply ext
  have hmem : key ∈ (dict.restrict kind).items.map Prod.fst ↔
      key ∈ dict.items.map Prod.fst := by
    simp [restrict, h]
  unfold set
  by_cases hkey : key ∈ dict.items.map Prod.fst
  · rw [dif_pos hkey, dif_pos (hmem.mpr hkey)]
    simp only [restrict, filter_map]
    congr 1
    apply filter_congr
    intro item _
    by_cases hitem : item.1 = key
    · simp [hitem, h]
    · simp [hitem]
  · rw [dif_neg hkey, dif_neg (fun hkey' => hkey (hmem.mp hkey'))]
    simp [restrict, h]

theorem restrict_set_of_neg (h : kind key = false) (dict : Dict κ υ) (value : υ) :
    (dict.set key value).restrict kind = dict.restrict kind := by
  apply ext
  unfold set
  by_cases hkey : key ∈ dict.items.map Prod.fst
  · rw [dif_pos hkey]
    simp only [restrict, filter_map]
    rw [map_congr_left, map_id]
    · apply filter_congr
      intro item _
      by_cases hitem : item.1 = key
      · simp [hitem]
      · simp [hitem]
    · intro item hitem
      have hkind : kind (if item.1 = key then (key, value) else item).1 =
          true := (mem_filter.mp hitem).2
      by_cases hsame : item.1 = key
      · rw [if_pos hsame, h] at hkind
        cases hkind
      · rw [if_neg hsame]
        rfl
  · rw [dif_neg hkey]
    simp [restrict, h]

theorem items_set_of_mem (h : key ∈ dict.keys) (value : υ) :
    (dict.set key value).items = dict.items.map fun item =>
        if item.1 = key then (key, value) else item := by
  unfold set
  rw [dif_pos (show key ∈ dict.items.map Prod.fst from h)]

theorem set_set (dict : Dict κ υ) (key : κ) (first second : υ) :
    (dict.set key first).set key second = dict.set key second := by
  have hset : key ∈ (dict.set key first).keys := mem_keys_set.mpr (.inl rfl)
  apply ext
  rw [items_set_of_mem hset]
  by_cases h : key ∈ dict.keys
  · rw [items_set_of_mem h, items_set_of_mem h, map_map]
    apply map_congr_left
    intro item _
    by_cases hitem : item.1 = key <;> simp [hitem]
  · have hother : ∀ item ∈ dict.items, item.1 ≠ key :=
      fun item hitem heq => h (heq ▸ mem_map_of_mem hitem)
    rw [items_set_of_notMem h, items_set_of_notMem h, map_append]
    congr 1
    · exact (map_congr_left fun item hitem =>
        if_neg (hother item hitem)).trans (map_id _)
    · simp

/-- `{key: value for key, value in pairs}`. -/
def ofList (pairs : List (κ × υ)) : Dict κ υ :=
  pairs.foldl (fun dict pair => dict.set pair.1 pair.2) empty

variable {pairs : List (κ × υ)}

theorem mem_items_foldl_set (h : item ∈ (pairs.foldl (fun dict pair => dict.set pair.1 pair.2)
      dict).items) : item ∈ pairs ∨ item ∈ dict.items := by
  induction pairs generalizing dict with
  | nil => exact Or.inr h
  | cons pair rest ih =>
    rcases ih h with hrest | hset
    · exact Or.inl (mem_cons_of_mem _ hrest)
    · rcases mem_items_set hset with hnew | hold
      · rw [hnew]
        exact Or.inl mem_cons_self
      · exact Or.inr hold

theorem get?_foldl_set_of_notMem (h : key ∉ pairs.map Prod.fst) (dict : Dict κ υ) :
    (pairs.foldl (fun dict pair => dict.set pair.1 pair.2) dict).get? key = dict.get? key := by
  induction pairs generalizing dict with
  | nil => rfl
  | cons pair pairs ih =>
    have hrest : key ∉ pairs.map Prod.fst :=
      fun hmem => h (mem_cons_of_mem _ hmem)
    have hne : key ≠ pair.1 := fun heq => h (heq ▸ mem_cons_self)
    rw [foldl_cons, ih hrest, get?_set_of_ne hne]

theorem get?_foldl_set_of_mem {pair : κ × υ}
    (hnodup : (pairs.map Prod.fst).Nodup) (h : pair ∈ pairs) (dict : Dict κ υ) :
    (pairs.foldl (fun dict pair => dict.set pair.1 pair.2) dict).get? pair.1 = some pair.2 := by
  induction pairs generalizing dict with
  | nil => simp at h
  | cons first pairs ih =>
    obtain ⟨hfirst, hnodup⟩ := nodup_cons.mp hnodup
    rw [foldl_cons]
    rcases mem_cons.mp h with rfl | h
    · rw [get?_foldl_set_of_notMem hfirst, get?_set_self]
    · exact ih hnodup h _

def update (dict other : Dict κ υ) : Dict κ υ :=
  other.items.foldl (fun dict pair => dict.set pair.1 pair.2) dict

theorem get?_update (dict other : Dict κ υ) (key : κ) :
    (dict.update other).get? key = (other.get? key).or (dict.get? key) := by
  cases hother : other.get? key with
  | none =>
    exact get?_foldl_set_of_notMem (get?_eq_none_iff.mp hother) dict
  | some value =>
    exact get?_foldl_set_of_mem other.nodupKeys (get?_eq_some_iff.mp hother) dict

theorem mem_items_ofList (h : item ∈ (ofList pairs).items) : item ∈ pairs := by
  rcases mem_items_foldl_set h with hmem | hempty
  · exact hmem
  · cases hempty

theorem mem_keys_foldl_set :
    key ∈ (pairs.foldl (fun dict pair => dict.set pair.1 pair.2) dict).keys ↔
      key ∈ pairs.map Prod.fst ∨ key ∈ dict.keys := by
  induction pairs generalizing dict with
  | nil => simp
  | cons pair pairs ih =>
    rw [foldl_cons, ih, mem_keys_set, map_cons, mem_cons]
    tauto

theorem mem_keys_ofList : key ∈ (ofList pairs).keys ↔ key ∈ pairs.map Prod.fst := by
  rw [ofList, mem_keys_foldl_set, keys_empty]
  simp

end Dict

end PyFly.Library
