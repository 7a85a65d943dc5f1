import Mathlib.Data.List.Basic
import PyFly.ConfigSources

/-!
# Layers of the configuration

Each layer is merged into those before it.  What is found under a path is
decided by the last layer which defines the path or replaces a dictionary
above it; a dictionary goes on from what was found there before.
-/

namespace PyFly.Core.Value

open List

variable {σ : Type}

/-! ## One layer -/

def reach : List (List Char) → Value σ → Option (Value σ)
  | [], value => some value
  | part :: parts, .dict entries => (entries.lookup part).bind (reach parts)
  | _ :: _, _ => none

theorem null_ne_dict (entries : Entries σ) : Value.null ≠ .dict entries := by
  intro h
  cases h

theorem text_ne_dict (chars : List Char) (entries : Entries σ) :
    Value.text chars ≠ .dict entries := by
  intro h
  cases h

theorem scalar_ne_dict (object : σ) (entries : Entries σ) :
    Value.scalar object ≠ .dict entries := by
  intro h
  cases h

def Blocks (path : List (List Char)) (layer : Value σ) : Prop :=
  ∃ front rest value, path = front ++ rest ∧ rest ≠ [] ∧
    reach front layer = some value ∧ ∀ entries, value ≠ .dict entries

def Silent (path : List (List Char)) (layer : Value σ) : Prop :=
  reach path layer = none ∧ ¬ Blocks path layer

theorem not_blocks_nil (layer : Value σ) : ¬ Blocks [] layer := by
  rintro ⟨front, rest, value, hpath, hrest, -⟩
  exact hrest (append_eq_nil_iff.mp hpath.symm).2

variable {layer : Value σ}

theorem blocks_of_ne_dict (part : List Char) (parts : List (List Char))
    (h : ∀ entries, layer ≠ .dict entries) :
    Blocks (part :: parts) layer :=
  ⟨[], part :: parts, layer, rfl, cons_ne_nil _ _, rfl, h⟩

variable {entries : Entries σ}

theorem blocks_cons_iff {part : List Char} {parts : List (List Char)} :
    Blocks (part :: parts) (.dict entries) ↔
      ∃ value, entries.lookup part = some value ∧ Blocks parts value := by
  constructor
  · rintro ⟨front, rest, value, hpath, hrest, hreach, hvalue⟩
    cases front with
    | nil =>
      obtain rfl := Option.some.inj hreach
      exact absurd rfl (hvalue entries)
    | cons first front =>
      rw [cons_append, List.cons.injEq] at hpath
      obtain ⟨rfl, hpath⟩ := hpath
      obtain ⟨next, hnext, hreach⟩ := Option.bind_eq_some_iff.mp hreach
      exact ⟨next, hnext, front, rest, value, hpath, hrest, hreach, hvalue⟩
  · rintro ⟨next, hnext, front, rest, value, rfl, hrest, hreach, hvalue⟩
    refine ⟨part :: front, rest, value, rfl, hrest, ?_, hvalue⟩
    exact Option.bind_eq_some_iff.mpr ⟨next, hnext, hreach⟩

variable {path : List (List Char)}

/-- A layer brings a value under a path by defining it, and `None` by blocking
it. -/
theorem given_eq_some_iff {value : Value σ} : given path layer = some value ↔
      reach path layer = some value ∨ Blocks path layer ∧ value = .null := by
  induction path generalizing layer with
  | nil =>
    constructor
    · exact .inl
    · rintro (h | ⟨hblocks, -⟩)
      · exact h
      · exact absurd hblocks (not_blocks_nil layer)
  | cons part parts ih =>
    have hcut (hgiven : given (part :: parts) layer = some .null)
        (hreach : reach (part :: parts) layer = none)
        (hne : ∀ entries, layer ≠ .dict entries) :
        given (part :: parts) layer = some value ↔ reach (part :: parts) layer = some value ∨
            Blocks (part :: parts) layer ∧ value = .null := by
      rw [hgiven, hreach]
      constructor
      · intro h
        exact .inr ⟨blocks_of_ne_dict part parts hne, (Option.some.inj h).symm⟩
      · rintro (h | ⟨-, rfl⟩)
        · cases h
        · rfl
    cases layer with
    | null => exact hcut rfl rfl null_ne_dict
    | text chars => exact hcut rfl rfl (text_ne_dict chars)
    | scalar object => exact hcut rfl rfl (scalar_ne_dict object)
    | dict entries =>
      have hgiven : given (part :: parts) (.dict entries) =
          (entries.lookup part).bind (given parts) := rfl
      have hreach : reach (part :: parts) (.dict entries) =
          (entries.lookup part).bind (reach parts) := rfl
      rw [hgiven, hreach, blocks_cons_iff]
      cases entries.lookup part with
      | none => simp
      | some next => simpa using ih

theorem given_eq_none_of_silent (h : Silent path layer) : given path layer = none := by
  cases hgiven : given path layer with
  | none => rfl
  | some value =>
    rcases given_eq_some_iff.mp hgiven with hreach | ⟨hblocks, -⟩
    · rw [h.1] at hreach
      cases hreach
    · exact absurd hblocks h.2

/-! ## All layers -/

def mergeLayers (base : Entries σ) (layers : List (Entries σ)) : Entries σ :=
  layers.foldl deepMerge base

def found (base : Entries σ) (layers : List (Entries σ)) (path : List (List Char)) : Value σ :=
  Config.walk path (.dict (mergeLayers base layers))

theorem found_append_singleton (base : Entries σ) (layers : List (Entries σ))
    {layer : Entries σ} (hlayer : EntriesDistinct layer)
    (path : List (List Char)) :
    found base (layers ++ [layer]) path =
      overrideWith (found base layers path) (given path (.dict layer)) := by
  have hmerge : Value.dict (mergeLayers base (layers ++ [layer])) =
      merge (.dict (mergeLayers base layers)) (.dict layer) := by
    rw [merge, mergeLayers, foldl_append]
    rfl
  rw [found, hmerge]
  exact walk_merge path _ hlayer

theorem found_append_silent (base : Entries σ) (layers : List (Entries σ))
    {back : List (Entries σ)}
    (hdistinct : ∀ layer ∈ back, EntriesDistinct layer)
    (hsilent : ∀ layer ∈ back, Silent path (.dict layer)) :
    found base (layers ++ back) path = found base layers path := by
  induction back using List.reverseRecOn with
  | nil => rw [append_nil]
  | append_singleton back layer ih =>
    have hlast : layer ∈ back ++ [layer] :=
      mem_append_right _ mem_cons_self
    rw [← append_assoc, found_append_singleton _ _ (hdistinct _ hlast),
      given_eq_none_of_silent (hsilent _ hlast)]
    exact ih (fun other hother => hdistinct other (mem_append_left _ hother))
      fun other hother => hsilent other (mem_append_left _ hother)

structure FoundLast (base : Entries σ) (layers : List (Entries σ))
    (path : List (List Char)) : Prop where
  untouched : (∀ layer ∈ layers, Silent path (.dict layer)) →
    found base layers path = Config.walk path (.dict base)
  defined : ∀ front layer back value, layers = front ++ layer :: back →
    (∀ later ∈ back, Silent path (.dict later)) → reach path (.dict layer) = some value →
        (∀ entries, value ≠ .dict entries) → found base layers path = value
  merged : ∀ front layer back entries, layers = front ++ layer :: back →
    (∀ later ∈ back, Silent path (.dict later)) →
      reach path (.dict layer) = some (.dict entries) → found base layers path =
          merge (found base front path) (.dict entries)
  blocked : ∀ front layer back, layers = front ++ layer :: back →
    (∀ later ∈ back, Silent path (.dict later)) →
      Blocks path (.dict layer) → found base layers path = .null

theorem foundLast (base : Entries σ) {layers : List (Entries σ)}
    (hdistinct : ∀ layer ∈ layers, EntriesDistinct layer)
    (path : List (List Char)) : FoundLast base layers path := by
  have hlast : ∀ front layer back, layers = front ++ layer :: back →
      (∀ later ∈ back, Silent path (.dict later)) → found base layers path =
          overrideWith (found base front path) (given path (.dict layer)) := by
    rintro front layer back rfl hsilent
    have hlayer := hdistinct layer (mem_append_right _ mem_cons_self)
    rw [append_cons, found_append_silent _ _ (fun other hother =>
      hdistinct other (mem_append_right _ (mem_cons_of_mem _ hother))) hsilent,
      found_append_singleton _ _ hlayer]
  constructor
  · intro hsilent
    exact found_append_silent base [] hdistinct hsilent
  · intro front layer back value hlayers hsilent hreach hne
    rw [hlast front layer back hlayers hsilent, given_eq_some_iff.mpr (.inl hreach)]
    exact merge_of_ne_dict _ hne
  · intro front layer back entries hlayers hsilent hreach
    rw [hlast front layer back hlayers hsilent, given_eq_some_iff.mpr (.inl hreach)]
    rfl
  · intro front layer back hlayers hsilent hblocks
    rw [hlast front layer back hlayers hsilent, given_eq_some_iff.mpr (.inr ⟨hblocks, rfl⟩)]
    exact merge_of_ne_dict _ null_ne_dict

/-- Two layers with a dictionary under one path. -/
theorem not_found_as_defined :
    ¬ ∀ (base : Entries Empty) (layers front back : List (Entries Empty))
      (layer : Entries Empty) (path : List (List Char)) (value : Value Empty),
      layers = front ++ layer :: back → (∀ other ∈ layers, EntriesDistinct other) →
          (∀ later ∈ back, Silent path (.dict later)) →
            reach path (.dict layer) = some value → found base layers path = value := by
  intro hall
  have hfound := hall [] [[(['a'], .dict [(['x'], .null)])],
    [(['a'], .dict [(['y'], .null)])]] [[(['a'], .dict [(['x'], .null)])]] []
    [(['a'], .dict [(['y'], .null)])] [['a']] (.dict [(['y'], .null)]) rfl
    ?_ (fun _ h => absurd h not_mem_nil) rfl
  · cases congrArg (reach [['x']]) hfound
  · intro other hother
    simp only [mem_cons, not_mem_nil, or_false] at hother
    rcases hother with rfl | rfl <;> simp [EntriesDistinct, KeysDistinct]

/-! ## A layer twice in a row -/

theorem setKey_of_lookup {key : List Char} {value : Value σ}
    (h : entries.lookup key = some value) :
    setKey key value entries = entries := by
  induction entries with
  | nil => cases h
  | cons entry entries ih =>
    obtain ⟨other, old⟩ := entry
    rw [lookup_cons] at h
    by_cases hsame : key = other
    · subst hsame
      rw [beq_self_eq_true] at h
      obtain rfl := Option.some.inj h
      rw [setKey, if_pos rfl]
    · rw [beq_eq_false_iff_ne.mpr hsame] at h
      rw [setKey, if_neg (Ne.symm hsame), ih h]

theorem deepMerge_of_absorbed {layer merged : Entries σ}
    (h : ∀ entry ∈ layer, ∃ value, merged.lookup entry.1 = some value ∧
      merge value entry.2 = value) : deepMerge merged layer = merged := by
  induction layer with
  | nil => rfl
  | cons entry layer ih =>
    obtain ⟨key, given⟩ := entry
    obtain ⟨value, hlookup, hmerge⟩ := h _ mem_cons_self
    rw [deepMerge, hlookup, Option.getD_some, hmerge, setKey_of_lookup hlookup]
    exact ih fun other hother => h other (mem_cons_of_mem _ hother)

variable {entry : List Char × Value σ}

theorem lookup_of_mem_distinct (h : EntriesDistinct entries)
    (hentry : entry ∈ entries) : entries.lookup entry.1 = some entry.2 := by
  induction entries with
  | nil => exact absurd hentry not_mem_nil
  | cons first entries ih =>
    obtain ⟨key, value⟩ := first
    obtain ⟨hfirst, -, hrest⟩ := h
    rw [lookup_cons]
    rcases mem_cons.mp hentry with rfl | hentry
    · rw [beq_self_eq_true]
    · rw [beq_eq_false_iff_ne.mpr (hfirst entry hentry)]
      exact ih hrest hentry

theorem sizeOf_lt_of_mem (h : entry ∈ entries) :
    sizeOf entry.2 < sizeOf (Value.dict entries) := by
  have hentry := List.sizeOf_lt_of_mem h
  obtain ⟨key, value⟩ := entry
  simp only [Value.dict.sizeOf_spec, Prod.mk.sizeOf_spec] at hentry ⊢
  omega

theorem EntriesDistinct.of_mem (h : EntriesDistinct entries)
    (hentry : entry ∈ entries) : KeysDistinct entry.2 :=
  h.of_lookup (lookup_of_mem_distinct h hentry)

theorem merge_twice (base : Value σ) (h : KeysDistinct layer) :
    merge (merge base layer) layer = merge base layer := by
  induction hsize : sizeOf layer using Nat.strong_induction_on generalizing base layer with
  | _ size ih =>
    cases layer with
    | null =>
      exact (merge_of_ne_dict _ null_ne_dict).trans (merge_of_ne_dict _ null_ne_dict).symm
    | text chars =>
      exact (merge_of_ne_dict _ (text_ne_dict chars)).trans
        (merge_of_ne_dict _ (text_ne_dict chars)).symm
    | scalar object =>
      exact (merge_of_ne_dict _ (scalar_ne_dict object)).trans
        (merge_of_ne_dict _ (scalar_ne_dict object)).symm
    | dict entries =>
      have hinner : ∀ entry ∈ entries, ∀ earlier : Value σ,
          merge (merge earlier entry.2) entry.2 =
            merge earlier entry.2 := fun entry hentry earlier =>
        ih _ (hsize ▸ sizeOf_lt_of_mem hentry) earlier (EntriesDistinct.of_mem h hentry) rfl
      have hself : deepMerge entries entries = entries := by
        apply deepMerge_of_absorbed
        intro entry hentry
        have hmerge := hinner entry hentry .null
        rw [merge_null] at hmerge
        exact ⟨entry.2, lookup_of_mem_distinct h hentry, hmerge⟩
      cases base with
      | dict earlier =>
        rw [merge, merge, deepMerge_of_absorbed]
        intro entry hentry
        refine ⟨_, ?_, hinner entry hentry ((earlier.lookup entry.1).getD .null)⟩
        rw [lookup_deepMerge h, lookup_of_mem_distinct h hentry]
      | null => exact congrArg Value.dict hself
      | text chars => exact congrArg Value.dict hself
      | scalar object => exact congrArg Value.dict hself

theorem deepMerge_twice (base : Entries σ) {layer : Entries σ} (h : EntriesDistinct layer) :
    deepMerge (deepMerge base layer) layer = deepMerge base layer := by
  have htwice : merge (merge (.dict base) (.dict layer)) (.dict layer) =
      merge (.dict base) (.dict layer) := merge_twice _ h
  rw [merge, merge] at htwice
  exact Value.dict.inj htwice

end PyFly.Core.Value
