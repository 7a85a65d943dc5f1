import PyFly.Config

/-!
# Sources of the configuration

`from_sources` merges the framework defaults, the base files and the overlays
of the active profiles.  A file changes what is found under a path through the
one value which it has there: no value leaves it, a dictionary is merged with
a dictionary, and any other value replaces it.
-/

namespace PyFly.Core

namespace Value

variable {σ : Type}

/-! ## Merging -/

/-- `merged[key] = value` -/
def setKey (key : List Char) (value : Value σ) : Entries σ → Entries σ
  | [] => [(key, value)]
  | (other, old) :: entries =>
    if other = key then (key, value) :: entries
    else (other, old) :: setKey key value entries

mutual

def merge : Value σ → Value σ → Value σ
  | .dict base, .dict override => .dict (deepMerge base override)
  | _, value => value

/-- `_deep_merge`, with the loop over the override. -/
def deepMerge (merged : Entries σ) : Entries σ → Entries σ
  | [] => merged
  | (key, value) :: override =>
    deepMerge (setKey key (merge ((merged.lookup key).getD .null) value) merged) override

end

mutual

def KeysDistinct : Value σ → Prop
  | .dict entries => EntriesDistinct entries
  | _ => True

def EntriesDistinct : Entries σ → Prop
  | [] => True
  | (key, value) :: entries =>
    (∀ entry ∈ entries, entry.1 ≠ key) ∧ KeysDistinct value ∧ EntriesDistinct entries

end

theorem lookup_setKey (key other : List Char) (value : Value σ) (entries : Entries σ) :
    (setKey key value entries).lookup other =
      if other = key then some value else entries.lookup other := by
  induction entries with
  | nil =>
    by_cases h : other = key
    · simp [setKey, h]
    · simp [setKey, List.lookup_cons, beq_eq_false_iff_ne.mpr h, h]
  | cons entry entries ih =>
    obtain ⟨first, old⟩ := entry
    by_cases hfirst : first = key
    · subst hfirst
      by_cases h : other = first
      · simp [setKey, h]
      · simp [setKey, List.lookup_cons, beq_eq_false_iff_ne.mpr h, h]
    · rw [setKey, if_neg hfirst, List.lookup_cons, ih, List.lookup_cons]
      by_cases h : other = first
      · subst h
        simp [hfirst]
      · rw [beq_eq_false_iff_ne.mpr h]

variable {entries : Entries σ}

theorem EntriesDistinct.lookup_eq_none {key : List Char}
    (h : ∀ entry ∈ entries, entry.1 ≠ key) :
    entries.lookup key = none :=
  List.lookup_eq_none_iff.mpr fun entry hentry =>
    bne_iff_ne.mpr (h entry hentry).symm

theorem lookup_deepMerge {override : Entries σ}
    (hdistinct : EntriesDistinct override) (merged : Entries σ)
    (key : List Char) :
    (deepMerge merged override).lookup key = match override.lookup key with
      | none => merged.lookup key
      | some value =>
        some (merge ((merged.lookup key).getD .null) value) := by
  induction override generalizing merged with
  | nil => rfl
  | cons entry override ih =>
    obtain ⟨first, value⟩ := entry
    obtain ⟨hfirst, -, hrest⟩ := hdistinct
    rw [deepMerge, ih hrest, lookup_setKey]
    by_cases h : key = first
    · subst h
      simp [EntriesDistinct.lookup_eq_none hfirst]
    · simp [List.lookup_cons, beq_eq_false_iff_ne.mpr h, h]

theorem EntriesDistinct.of_lookup (h : EntriesDistinct entries)
    {key : List Char} {value : Value σ}
    (hvalue : entries.lookup key = some value) : KeysDistinct value := by
  induction entries with
  | nil => cases hvalue
  | cons entry entries ih =>
    obtain ⟨first, old⟩ := entry
    obtain ⟨-, hfirst, hrest⟩ := h
    rw [List.lookup_cons] at hvalue
    split at hvalue
    · exact Option.some.inj hvalue ▸ hfirst
    · exact ih hrest hvalue

/-! ## One path -/

/-- What a merge of the value brings under a path: nothing where the path
leaves its dictionaries at a missing key, and `None` where the path meets
something else. -/
def given : List (List Char) → Value σ → Option (Value σ)
  | [], value => some value
  | part :: parts, .dict entries => (entries.lookup part).bind (given parts)
  | _ :: _, _ => some .null

def overrideWith (value : Value σ) : Option (Value σ) → Value σ
  | none => value
  | some override => merge value override

@[simp] theorem merge_null (value : Value σ) : merge .null value = value := by
  cases value <;> rfl

theorem walk_eq_overrideWith (path : List (List Char)) (value : Value σ) :
    Config.walk path value = overrideWith .null (given path value) := by
  induction path generalizing value with
  | nil => exact (merge_null value).symm
  | cons part parts ih =>
    cases value with
    | dict entries =>
      have hwalk : Config.walk (part :: parts) (.dict entries) =
          Config.walk parts ((entries.lookup part).getD .null) := rfl
      have hgiven : given (part :: parts) (.dict entries) =
          (entries.lookup part).bind (given parts) := rfl
      rw [hwalk, hgiven]
      cases entries.lookup part with
      | none => exact Config.walk_null parts
      | some next => exact ih next
    | null => rfl
    | text chars => rfl
    | scalar object => rfl

/-- The first step of a walk. -/
def next (part : List Char) (value : Value σ) : Value σ :=
  ((Config.entriesOf value).lookup part).getD .null

theorem walk_cons (part : List Char) (parts : List (List Char)) (value : Value σ) :
    Config.walk (part :: parts) value = Config.walk parts (next part value) := by
  cases value with
  | dict entries => rfl
  | null => exact (Config.walk_null parts).symm
  | text chars => exact (Config.walk_null parts).symm
  | scalar object => exact (Config.walk_null parts).symm

theorem next_merge_dict (part : List Char) (base : Value σ) (h : EntriesDistinct entries) :
    next part (merge base (.dict entries)) =
      overrideWith (next part base) (entries.lookup part) := by
  cases base with
  | dict base =>
    have hmerge : next part (merge (.dict base) (.dict entries)) =
        ((deepMerge base entries).lookup part).getD .null := by
      rw [merge]
      rfl
    rw [hmerge, lookup_deepMerge h]
    cases entries.lookup part <;> rfl
  | null => cases hlookup : entries.lookup part <;>
      simp [merge, next, Config.entriesOf, overrideWith, hlookup]
  | text chars => cases hlookup : entries.lookup part <;>
      simp [merge, next, Config.entriesOf, overrideWith, hlookup]
  | scalar object => cases hlookup : entries.lookup part <;>
      simp [merge, next, Config.entriesOf, overrideWith, hlookup]

theorem merge_of_ne_dict (base : Value σ) {value : Value σ}
    (h : ∀ entries, value ≠ .dict entries) : merge base value = value := by
  cases value with
  | dict entries => exact (h entries rfl).elim
  | null => cases base <;> rfl
  | text chars => cases base <;> rfl
  | scalar object => cases base <;> rfl

theorem walk_merge (path : List (List Char)) (base : Value σ)
    {override : Value σ} (h : KeysDistinct override) :
    Config.walk path (merge base override) =
      overrideWith (Config.walk path base) (given path override) := by
  induction path generalizing base override with
  | nil => rfl
  | cons part parts ih =>
    have hcut (hne : ∀ entries, override ≠ .dict entries)
        (hnull : given (part :: parts) override = some .null) :
        Config.walk (part :: parts) (merge base override) =
          overrideWith (Config.walk (part :: parts) base) (given (part :: parts) override) := by
      have hlost : merge (Config.walk (part :: parts) base) .null = .null :=
        merge_of_ne_dict _ nofun
      rw [merge_of_ne_dict base hne, walk_eq_overrideWith, hnull]
      exact (merge_null .null).trans hlost.symm
    cases override with
    | null => exact hcut nofun rfl
    | text chars => exact hcut nofun rfl
    | scalar object => exact hcut nofun rfl
    | dict entries =>
      have hgiven : given (part :: parts) (.dict entries) =
          (entries.lookup part).bind (given parts) := rfl
      rw [walk_cons, walk_cons, next_merge_dict part base h, hgiven]
      cases hlookup : entries.lookup part with
      | none => rfl
      | some value => exact ih _ (EntriesDistinct.of_lookup h hlookup)

theorem foldl_overrideWith_of_forall_none {overrides : List (Option (Value σ))}
    (h : ∀ override ∈ overrides, override = none) (value : Value σ) :
    overrides.foldl overrideWith value = value := by
  induction overrides with
  | nil => rfl
  | cons first overrides ih =>
    obtain rfl := h first List.mem_cons_self
    exact ih fun override hoverride =>
      h override (List.mem_cons_of_mem none hoverride)

end Value

/-! ## Files -/

/-- What a YAML or TOML file holds. -/
structure Document (σ : Type) where
  value : Value σ
  keys_distinct : value.KeysDistinct

abbrev File (σ : Type) : Type := Except PyError (Document σ)

inductive Location
  | config
  | root
  deriving DecidableEq, Repr

inductive Format
  | yaml
  | toml
  deriving DecidableEq, Repr

/-- A directory with its files `pyfly` and `pyfly-{profile}`, here and in the
subdirectory `config`. -/
structure Directory (σ : Type) where
  base : Location → Format → Option (File σ)
  overlay : List Char → Location → Format → Option (File σ)

def candidates {α : Type} (files : Location → Format → α) : List α :=
  [files .config .yaml, files .config .toml, files .root .yaml, files .root .toml]

namespace Config

open Value

variable {σ : Type} (python : Python σ)

def truth : Value σ → Bool
  | .null => false
  | .text chars => !chars.isEmpty
  | .scalar object => python.truth object
  | .dict entries => !entries.isEmpty

def orEmpty (value : Value σ) : Value σ :=
  if truth python value then value else .dict []

def loadConfigData (document : Document σ) : Value σ :=
  orEmpty python document.value

/-- One step of the merge.  `_deep_merge` calls the `items` of what was
loaded. -/
def mergeFile (data : Entries σ) : Option (File σ) → Except PyError (Entries σ)
  | none => .ok data
  | some (.error error) => .error error
  | some (.ok document) =>
    match loadConfigData python document with
    | .dict override => .ok (deepMerge data override)
    | _ => .error .attributeError

def mergeFiles (data : Entries σ) : List (Option (File σ)) → Except PyError (Entries σ)
  | [] => .ok data
  | file :: files =>
    match mergeFile python data file with
    | .error error => .error error
    | .ok data => mergeFiles data files

def fromSources (defaults : Entries σ) (dir : Directory σ)
    (activeProfiles : List (List Char)) : Except PyError (Config σ) :=
  (mergeFiles python defaults (candidates dir.base ++ activeProfiles.flatMap fun profile =>
        candidates (dir.overlay profile))).map Config.mk

/-! ## A path in the merged files -/

def fileGiven (path : List (List Char)) : Option (File σ) → Option (Value σ)
  | some (.ok document) => given path (loadConfigData python document)
  | _ => none

theorem keysDistinct_loadConfigData (document : Document σ) :
    KeysDistinct (loadConfigData python document) := by
  unfold loadConfigData orEmpty
  split
  · exact document.keys_distinct
  · exact trivial

variable {python}

theorem walk_mergeFile {data merged : Entries σ} {file : Option (File σ)}
    (h : mergeFile python data file = .ok merged)
    (path : List (List Char)) :
    walk path (.dict merged) =
      overrideWith (walk path (.dict data)) (fileGiven python path file) := by
  match file, h with
  | none, h =>
    obtain rfl := Except.ok.inj h
    rfl
  | some (.error error), h => cases h
  | some (.ok document), h =>
    have hdistinct := keysDistinct_loadConfigData python document
    have hgiven : fileGiven python path (some (.ok document)) =
        given path (loadConfigData python document) := rfl
    rw [hgiven, ← walk_merge path _ hdistinct]
    simp only [mergeFile] at h
    split at h
    · rename_i override hload
      obtain rfl := Except.ok.inj h
      rw [hload, merge]
    · cases h

theorem walk_mergeFiles {data merged : Entries σ} {files : List (Option (File σ))}
    (h : mergeFiles python data files = .ok merged)
    (path : List (List Char)) :
    walk path (.dict merged) = (files.map (fileGiven python path)).foldl overrideWith
        (walk path (.dict data)) := by
  induction files generalizing data with
  | nil =>
    obtain rfl := Except.ok.inj h
    rfl
  | cons file files ih =>
    simp only [mergeFiles] at h
    split at h
    · cases h
    · rename_i first hfirst
      rw [ih h, walk_mergeFile hfirst]
      rfl

theorem walk_fromSources {defaults : Entries σ} {dir : Directory σ}
    {profiles : List (List Char)} {config : Config σ}
    (h : fromSources python defaults dir profiles = .ok config)
    {path : List (List Char)}
    (hsilent : ∀ profile ∈ profiles, ∀ file ∈ candidates (dir.overlay profile),
        fileGiven python path file = none) :
    walk path (.dict config.data) =
      ((candidates dir.base).map (fileGiven python path)).foldl overrideWith
        (walk path (.dict defaults)) := by
  unfold fromSources at h
  cases hmerge : mergeFiles python defaults
      (candidates dir.base ++ profiles.flatMap fun profile =>
        candidates (dir.overlay profile)) with
  | error error =>
    rw [hmerge] at h
    cases h
  | ok merged =>
    rw [hmerge] at h
    obtain rfl := Except.ok.inj h
    rw [walk_mergeFiles hmerge, List.map_append, List.foldl_append]
    refine foldl_overrideWith_of_forall_none (fun override hoverride => ?_) _
    obtain ⟨file, hfile, rfl⟩ := List.mem_map.mp hoverride
    obtain ⟨profile, hprofile, hfile⟩ := List.mem_flatMap.mp hfile
    exact hsilent profile hprofile file hfile

end Config

end PyFly.Core
