import Mathlib.Data.List.Nodup
import Mathlib.Logic.Function.Basic
import PyFly.MergedLayers

/-!
# Layers as objects

Dictionaries are objects which others refer to.  `_deep_merge` copies the base
and writes into the copy alone, while it shares what it does not merge; the
objects which there were before stay as they are.
-/

namespace PyFly.Core

open List

variable {σ : Type}

inductive Ref (σ : Type)
  | null
  | text (chars : List Char)
  | scalar (object : σ)
  | dict (address : ℕ)

abbrev Cells (σ : Type) : Type := List (List Char × Ref σ)

/-- `merged[key] = value` -/
def setRef (key : List Char) (value : Ref σ) : Cells σ → Cells σ
  | [] => [(key, value)]
  | (other, old) :: cells =>
    if other = key then (key, value) :: cells
    else (other, old) :: setRef key value cells

theorem mem_keys_setRef {key name : List Char} {value : Ref σ}
    {cells : Cells σ} (h : name ∈ (setRef key value cells).map Prod.fst) :
    name = key ∨ name ∈ cells.map Prod.fst := by
  induction cells with
  | nil => exact .inl (mem_singleton.mp h)
  | cons cell cells ih =>
    obtain ⟨other, old⟩ := cell
    rw [setRef] at h
    split at h
    · rcases mem_cons.mp h with h | h
      · exact .inl h
      · exact .inr (mem_cons_of_mem _ h)
    · rcases mem_cons.mp h with rfl | h
      · exact .inr mem_cons_self
      · exact (ih h).imp_right (mem_cons_of_mem _)

theorem nodup_keys_setRef (key : List Char) (value : Ref σ)
    {cells : Cells σ} (h : (cells.map Prod.fst).Nodup) :
    ((setRef key value cells).map Prod.fst).Nodup := by
  induction cells with
  | nil => exact nodup_singleton key
  | cons cell cells ih =>
    obtain ⟨other, old⟩ := cell
    obtain ⟨hother, hrest⟩ := nodup_cons.mp h
    rw [setRef]
    split
    · next hsame => exact hsame ▸ h
    · next hne =>
        refine nodup_cons.mpr ⟨?_, ih hrest⟩
        intro hmem
        exact (mem_keys_setRef hmem).elim hne hother

structure Heap (σ : Type) where
  cells : ℕ → Option (Cells σ)
  next : ℕ
  fresh : ∀ address, next ≤ address → cells address = none
  distinct : ∀ address items, cells address = some items → (items.map Prod.fst).Nodup

namespace Heap

def listed (dicts : List (Cells σ))
    (hdistinct : ∀ items ∈ dicts, (items.map Prod.fst).Nodup) : Heap σ where
  cells := fun address => dicts[address]?
  next := dicts.length
  fresh := fun _ haddress => List.getElem?_eq_none haddress
  distinct := fun _ items hitems =>
    hdistinct items (mem_of_getElem? hitems)

/-- `dict(base)` -/
def copy (heap : Heap σ) (base : ℕ) : Heap σ where
  cells := Function.update heap.cells heap.next (heap.cells base)
  next := heap.next + 1
  fresh := by
    intro address haddress
    rw [Function.update_of_ne (Nat.ne_of_gt haddress)]
    exact heap.fresh address (Nat.le_of_succ_le haddress)
  distinct := by
    intro address items hitems
    by_cases hsame : address = heap.next
    · subst hsame
      rw [Function.update_self] at hitems
      exact heap.distinct base items hitems
    · rw [Function.update_of_ne hsame] at hitems
      exact heap.distinct address items hitems

def assign (heap : Heap σ) (address : ℕ) (key : List Char) (value : Ref σ) : Heap σ where
  cells := Function.update heap.cells address ((heap.cells address).map (setRef key value))
  next := heap.next
  fresh := by
    intro other hother
    by_cases hsame : other = address
    · subst hsame
      rw [Function.update_self, heap.fresh other hother, Option.map_none]
    · rw [Function.update_of_ne hsame]
      exact heap.fresh other hother
  distinct := by
    intro other items hitems
    by_cases hsame : other = address
    · subst hsame
      rw [Function.update_self, Option.map_eq_some_iff] at hitems
      obtain ⟨old, hold, rfl⟩ := hitems
      exact nodup_keys_setRef key value (heap.distinct other old hold)
    · rw [Function.update_of_ne hsame] at hitems
      exact heap.distinct other items hitems

def mergeItems (recurse : Heap σ → ℕ → ℕ → Option (Heap σ × ℕ))
    (merged : ℕ) : Cells σ → Heap σ → Option (Heap σ)
  | [], heap => some heap
  | (key, value) :: items, heap =>
    match (heap.cells merged).bind (·.lookup key), value with
    | some (.dict old), .dict override =>
      match recurse heap old override with
      | none => none
      | some (after, result) =>
        mergeItems recurse merged items (after.assign merged key (.dict result))
    | _, _ => mergeItems recurse merged items (heap.assign merged key value)

def deepMerge : ℕ → Heap σ → ℕ → ℕ → Option (Heap σ × ℕ)
  | 0, _, _, _ => none
  | depth + 1, heap, base, override =>
    match heap.cells override with
    | none => none
    | some items =>
      (mergeItems (deepMerge depth) heap.next items
        (heap.copy base)).map fun after => (after, heap.next)

def mergeLayers (depth : ℕ) : Heap σ → ℕ → List ℕ → Option (Heap σ × ℕ)
  | heap, merged, [] => some (heap, merged)
  | heap, merged, layer :: layers =>
    match deepMerge depth heap merged layer with
    | none => none
    | some (after, result) => mergeLayers depth after result layers

end Heap

/-! ## What references denote -/

inductive Denotes (cells : ℕ → Option (Cells σ)) : Ref σ → Value σ → Prop
  | null : Denotes cells .null .null
  | text (chars : List Char) : Denotes cells (.text chars) (.text chars)
  | scalar (object : σ) : Denotes cells (.scalar object) (.scalar object)
  | dict {address : ℕ} {items : Cells σ} {entries : Entries σ}
      (hitems : cells address = some items)
      (hkeys : items.map Prod.fst = entries.map Prod.fst)
      (hvalues : ∀ pair ∈ items.zip entries, Denotes cells pair.1.2 pair.2.2) :
      Denotes cells (.dict address) (.dict entries)

structure DenotesAll (cells : ℕ → Option (Cells σ)) (items : Cells σ)
    (entries : Entries σ) : Prop where
  keys : items.map Prod.fst = entries.map Prod.fst
  values : ∀ pair ∈ items.zip entries, Denotes cells pair.1.2 pair.2.2

section Denoting

variable {cells cells' : ℕ → Option (Cells σ)}

variable {entries : Entries σ}

theorem denotes_dict_iff {address : ℕ} : Denotes cells (.dict address) (.dict entries) ↔
      ∃ items, cells address = some items ∧ DenotesAll cells items entries := by
  constructor
  · intro h
    cases h with
    | dict hitems hkeys hvalues => exact ⟨_, hitems, hkeys, hvalues⟩
  · rintro ⟨items, hitems, hkeys, hvalues⟩
    exact .dict hitems hkeys hvalues

variable {ref : Ref σ} {value : Value σ}

theorem Denotes.mono (hsub : ∀ address items, cells address = some items →
      cells' address = some items) (h : Denotes cells ref value) :
    Denotes cells' ref value := by
  induction h with
  | null => exact .null
  | text chars => exact .text chars
  | scalar object => exact .scalar object
  | dict hitems hkeys _ ih => exact .dict (hsub _ _ hitems) hkeys ih

variable {items : Cells σ}

theorem DenotesAll.mono (hsub : ∀ address items, cells address = some items →
      cells' address = some items) (h : DenotesAll cells items entries) :
    DenotesAll cells' items entries :=
  ⟨h.keys, fun pair hpair => (h.values pair hpair).mono hsub⟩

theorem denotes_singleton {address : ℕ} {key : List Char}
    (hcells : cells address = some [(key, ref)])
    (hvalue : Denotes cells ref value) :
    Denotes cells (.dict address) (.dict [(key, value)]) := by
  refine .dict hcells rfl ?_
  intro pair hpair
  obtain rfl := mem_singleton.mp hpair
  exact hvalue

theorem denotesAll_nil_iff : DenotesAll cells [] entries ↔ entries = [] := by
  constructor
  · intro h
    exact map_eq_nil_iff.mp h.keys.symm
  · rintro rfl
    exact ⟨rfl, fun pair hpair => absurd hpair not_mem_nil⟩

theorem denotesAll_cons_iff {key : List Char} : DenotesAll cells ((key, ref) :: items) entries ↔
      ∃ value rest, entries = (key, value) :: rest ∧
        Denotes cells ref value ∧ DenotesAll cells items rest := by
  constructor
  · intro h
    cases entries with
    | nil => exact absurd h.keys (cons_ne_nil _ _)
    | cons entry rest =>
      obtain ⟨name, value⟩ := entry
      obtain ⟨hname, hkeys⟩ := List.cons.inj h.keys
      dsimp only at hname
      subst hname
      exact ⟨value, rest, rfl, h.values _ mem_cons_self, hkeys,
        fun pair hpair => h.values pair (mem_cons_of_mem _ hpair)⟩
  · rintro ⟨value, rest, rfl, hvalue, hrest⟩
    refine ⟨congrArg (key :: ·) hrest.keys, ?_⟩
    intro pair hpair
    rw [zip_cons_cons] at hpair
    rcases mem_cons.mp hpair with rfl | hpair
    · exact hvalue
    · exact hrest.values pair hpair

theorem DenotesAll.lookup (h : DenotesAll cells items entries) (key : List Char) :
    (items.lookup key = none ∧ entries.lookup key = none) ∨
      ∃ ref value, items.lookup key = some ref ∧
        entries.lookup key = some value ∧ Denotes cells ref value := by
  induction items generalizing entries with
  | nil =>
    obtain rfl := denotesAll_nil_iff.mp h
    exact .inl ⟨rfl, rfl⟩
  | cons item items ih =>
    obtain ⟨name, ref⟩ := item
    obtain ⟨value, rest, rfl, hvalue, hrest⟩ := denotesAll_cons_iff.mp h
    rw [lookup_cons, lookup_cons]
    by_cases hsame : key = name
    · rw [beq_iff_eq.mpr hsame]
      exact .inr ⟨ref, value, rfl, rfl, hvalue⟩
    · rw [beq_eq_false_iff_ne.mpr hsame]
      exact ih hrest

theorem DenotesAll.set (h : DenotesAll cells items entries) (key : List Char)
    (hvalue : Denotes cells ref value) :
    DenotesAll cells (setRef key ref items) (Value.setKey key value entries) := by
  induction items generalizing entries with
  | nil =>
    obtain rfl := denotesAll_nil_iff.mp h
    exact denotesAll_cons_iff.mpr ⟨value, [], rfl, hvalue, denotesAll_nil_iff.mpr rfl⟩
  | cons item items ih =>
    obtain ⟨name, old⟩ := item
    obtain ⟨first, rest, rfl, hfirst, hrest⟩ := denotesAll_cons_iff.mp h
    rw [setRef, Value.setKey]
    by_cases hsame : name = key
    · rw [if_pos hsame, if_pos hsame]
      exact denotesAll_cons_iff.mpr ⟨value, rest, rfl, hvalue, hrest⟩
    · rw [if_neg hsame, if_neg hsame]
      exact denotesAll_cons_iff.mpr ⟨first, _, rfl, hfirst, ih hrest⟩

end Denoting

/-! ## What a merge leaves and makes -/

structure Heap.Keeps (heap after : Heap σ) : Prop where
  next : heap.next ≤ after.next
  cells : ∀ address, address < heap.next → after.cells address = heap.cells address

theorem Heap.Keeps.trans {first second third : Heap σ}
    (hfirst : first.Keeps second) (hsecond : second.Keeps third) :
    first.Keeps third :=
  ⟨hfirst.next.trans hsecond.next, fun address haddress =>
    (hsecond.cells address (haddress.trans_le hfirst.next)).trans
      (hfirst.cells address haddress)⟩

def Heap.grown (heap after : Heap σ) (known : ℕ → Option (Cells σ))
    (address : ℕ) : Option (Cells σ) :=
  if address < heap.next then known address else after.cells address

def Heap.Knows (heap : Heap σ) (known : ℕ → Option (Cells σ)) : Prop :=
  ∀ address items, known address = some items → heap.cells address = some items

variable {heap : Heap σ} {known : ℕ → Option (Cells σ)}

theorem Heap.Knows.lt (h : heap.Knows known) {address : ℕ} {items : Cells σ}
    (hitems : known address = some items) : address < heap.next := by
  by_contra hnot
  have hcells := h address items hitems
  rw [heap.fresh address (Nat.not_lt.mp hnot)] at hcells
  cases hcells

variable {after : Heap σ}

theorem Heap.Knows.grown (h : heap.Knows known) (address : ℕ) (items : Cells σ)
    (hitems : known address = some items) :
    heap.grown after known address = some items := by
  rw [Heap.grown, if_pos (h.lt hitems)]
  exact hitems

theorem Heap.Keeps.knows_grown (hkeeps : heap.Keeps after)
    (h : heap.Knows known) : after.Knows (heap.grown after known) := by
  intro address items hitems
  rw [Heap.grown] at hitems
  split at hitems
  · next hlt => exact (hkeeps.cells address hlt).trans (h _ _ hitems)
  · exact hitems

def Heap.MergesTo (heap : Heap σ) (known : ℕ → Option (Cells σ))
    (entries : Entries σ) (outcome : Option (Heap σ × ℕ)) : Prop :=
  ∃ after result, outcome = some (after, result) ∧ heap.Keeps after ∧
    Denotes (heap.grown after known) (.dict result) (.dict entries)

variable {ref : Ref σ} {value : Value σ}

theorem Denotes.dict_or (h : Denotes known ref value) :
    (∃ address entries, ref = .dict address ∧ value = .dict entries) ∨
      (∀ address, ref ≠ .dict address) ∧ ∀ entries, value ≠ .dict entries := by
  cases h with
  | null =>
    refine .inr ⟨?_, Value.null_ne_dict⟩
    intro address h
    cases h
  | text chars =>
    refine .inr ⟨?_, Value.text_ne_dict chars⟩
    intro address h
    cases h
  | scalar object =>
    refine .inr ⟨?_, Value.scalar_ne_dict object⟩
    intro address h
    cases h
  | dict hitems hkeys hvalues => exact .inl ⟨_, _, rfl, rfl⟩

theorem merge_onto_ne_dict {base : Value σ}
    (h : ∀ entries, base ≠ .dict entries) (value : Value σ) :
    Value.merge base value = value := by
  cases base with
  | dict entries => exact absurd rfl (h entries)
  | null => exact Value.merge_null value
  | text chars => cases value <;> rfl
  | scalar object => cases value <;> rfl

theorem merge_cases {mergedItems : Cells σ} {mergedEntries : Entries σ}
    (hmerged : DenotesAll known mergedItems mergedEntries)
    (hvalue : Denotes known ref value) (key : List Char) :
    (∃ old override earlier entries,
      mergedItems.lookup key = some (.dict old) ∧ ref = .dict override ∧
        mergedEntries.lookup key = some (.dict earlier) ∧
          value = .dict entries ∧ Denotes known (.dict old) (.dict earlier)) ∨
      (∀ old override, mergedItems.lookup key = some (.dict old) → ref ≠ .dict override) ∧
        Value.merge ((mergedEntries.lookup key).getD .null) value = value := by
  rcases hmerged.lookup key with ⟨hitems, hentries⟩ | ⟨old, earlier, hitems, hentries, hold⟩
  · refine .inr ⟨?_, ?_⟩
    · intro old override h
      rw [hitems] at h
      cases h
    · rw [hentries]
      exact Value.merge_null value
  · rw [hitems, hentries, Option.getD_some]
    rcases hold.dict_or with ⟨first, before, rfl, rfl⟩ | ⟨hne, hdict⟩
    · rcases hvalue.dict_or with ⟨override, entries, rfl, rfl⟩ | ⟨hne, hdict⟩
      · exact .inl ⟨first, override, before, entries, rfl, rfl, rfl, rfl, hold⟩
      · exact .inr ⟨fun _ override _ => hne override, Value.merge_of_ne_dict _ hdict⟩
    · refine .inr ⟨?_, merge_onto_ne_dict hdict value⟩
      intro other override h
      exact absurd (Option.some.inj h) (hne other)

section Loop

variable {recurse : Heap σ → ℕ → ℕ → Option (Heap σ × ℕ)}

structure Heap.Looped (heap : Heap σ) (merged : ℕ)
    (known : ℕ → Option (Cells σ)) (entries : Entries σ) (after : Heap σ) :
    Prop where
  next : heap.next ≤ after.next
  cells : ∀ address, address < heap.next → address ≠ merged →
    after.cells address = heap.cells address
  merged : ∃ items, after.cells merged = some items ∧
    DenotesAll (heap.grown after known) items entries

variable {heap : Heap σ} {merged : ℕ} {items : Cells σ}

theorem Heap.assign_self (hitems : heap.cells merged = some items)
    (key : List Char) (value : Ref σ) :
    (heap.assign merged key value).cells merged = some (setRef key value items) :=
  (Function.update_self _ _ _).trans (congrArg _ hitems)

theorem Heap.assign_of_ne {address : ℕ} (hne : address ≠ merged)
    (key : List Char) (value : Ref σ) :
    (heap.assign merged key value).cells address = heap.cells address :=
  Function.update_of_ne hne _ _

variable {known : ℕ → Option (Cells σ)}

theorem Heap.ne_of_known {address : ℕ} {found : Cells σ}
    (hapart : known merged = none) (hfound : known address = some found) :
    address ≠ merged := by
  rintro rfl
  rw [hapart] at hfound
  cases hfound

theorem Heap.Knows.assign (h : heap.Knows known) (hapart : known merged = none)
    (key : List Char) (value : Ref σ) :
    (heap.assign merged key value).Knows known := by
  intro address found hfound
  rw [assign_of_ne (ne_of_known hapart hfound)]
  exact h address found hfound

theorem Heap.mergeItems_merged {after : Heap σ} {old override result : ℕ} {key : List Char}
    (hold : (heap.cells merged).bind (·.lookup key) = some (.dict old))
    (houtcome : recurse heap old override = some (after, result)) :
    mergeItems recurse merged ((key, .dict override) :: items) heap =
      mergeItems recurse merged items (after.assign merged key (.dict result)) := by
  unfold mergeItems
  rw [hold]
  dsimp only
  rw [houtcome]
  cases items <;> rfl

theorem Heap.mergeItems_shared {key : List Char} {ref : Ref σ}
    (h : ∀ old override, (heap.cells merged).bind (·.lookup key) = some (.dict old) →
        ref ≠ .dict override) :
    mergeItems recurse merged ((key, ref) :: items) heap =
      mergeItems recurse merged items (heap.assign merged key ref) := by
  rw [mergeItems]
  intro old override hold hvalue
  exact h old override hold hvalue

theorem Heap.Looped.back {middle after : Heap σ}
    {reached : ℕ → Option (Cells σ)} {entries : Entries σ}
    (hnext : heap.next ≤ middle.next)
    (hcells : ∀ address, address < heap.next → address ≠ merged →
      middle.cells address = heap.cells address)
    (hreached : ∀ address items, reached address = some items →
      address ≠ merged ∧ heap.grown middle known address = some items)
    (h : middle.Looped merged reached entries after) :
    heap.Looped merged known entries after := by
  obtain ⟨items, hitems, hentries⟩ := h.merged
  refine ⟨hnext.trans h.next, ?_, items, hitems, hentries.mono ?_⟩
  · intro address hlt hne
    exact (h.cells address (hlt.trans_le hnext) hne).trans (hcells address hlt hne)
  · intro address found hfound
    rw [grown] at hfound
    split at hfound
    · next hlt =>
        obtain ⟨hne, hgrown⟩ := hreached address found hfound
        rw [grown] at hgrown ⊢
        split at hgrown
        · next hold =>
            rw [if_pos hold]
            exact hgrown
        · next hold =>
            rw [if_neg hold]
            exact (h.cells address hlt hne).trans hgrown
    · next hge =>
        rw [grown, if_neg fun hlt => hge (hlt.trans_le hnext)]
        exact hfound

theorem Heap.mergeItems_looped {entries : Entries σ} {bound : ℕ}
    (hrecurse : ∀ (heap : Heap σ) (base override : ℕ)
      (known : ℕ → Option (Cells σ)) (baseEntries inner : Entries σ),
      sizeOf (Value.dict inner) ≤ bound → heap.Knows known →
        Denotes known (.dict base) (.dict baseEntries) →
          Denotes known (.dict override) (.dict inner) →
            heap.MergesTo known (Value.deepMerge baseEntries inner)
              (recurse heap base override))
    (hbound : ∀ entry ∈ entries, sizeOf entry.2 ≤ bound)
    (hknown : heap.Knows known) (hapart : known merged = none)
    (hlt : merged < heap.next) {mergedItems : Cells σ}
    {mergedEntries : Entries σ} (hitems : heap.cells merged = some mergedItems)
    (hmerged : DenotesAll known mergedItems mergedEntries)
    (hentries : DenotesAll known items entries) :
    ∃ after, mergeItems recurse merged items heap = some after ∧
      heap.Looped merged known (Value.deepMerge mergedEntries entries)
        after := by
  induction items generalizing entries heap known mergedItems mergedEntries with
  | nil =>
    obtain rfl := denotesAll_nil_iff.mp hentries
    exact ⟨heap, rfl, Nat.le_refl _, fun _ _ _ => rfl, mergedItems, hitems,
      hmerged.mono hknown.grown⟩
  | cons item items ih =>
    obtain ⟨key, ref⟩ := item
    obtain ⟨value, rest, rfl, hvalue, hrest⟩ :=
      denotesAll_cons_iff.mp hentries
    have hrestBound : ∀ entry ∈ rest, sizeOf entry.2 ≤ bound :=
      fun entry hentry => hbound entry (mem_cons_of_mem _ hentry)
    have hlookup : (heap.cells merged).bind (·.lookup key) = mergedItems.lookup key := by
      rw [hitems, Option.bind_some]
    rw [Value.deepMerge]
    rcases merge_cases hmerged hvalue key with
      ⟨old, override, earlier, inner, hold, rfl, hearlier, rfl, hdenotes⟩ |
      ⟨hplain, hmerge⟩
    · obtain ⟨middle, result, houtcome, hkeeps, hresult⟩ :=
        hrecurse heap old override known earlier inner
          (hbound _ mem_cons_self) hknown hdenotes hvalue
      rw [mergeItems_merged (hlookup.trans hold) houtcome, hearlier,
        Option.getD_some, Value.merge]
      have hmiddle := (hkeeps.cells merged hlt).trans hitems
      have happart : heap.grown middle known merged = none := by
        rw [grown, if_pos hlt, hapart]
      have hknows := (hkeeps.knows_grown hknown).assign happart key (.dict result)
      obtain ⟨after, hafter, hlooped⟩ := ih hrestBound hknows happart
        (hlt.trans_le hkeeps.next) (assign_self hmiddle key _)
        ((hmerged.mono hknown.grown).set key hresult)
        (hrest.mono hknown.grown)
      have hnext : heap.next ≤ (middle.assign merged key (.dict result)).next := hkeeps.next
      refine ⟨after, hafter, Looped.back hnext ?_ ?_ hlooped⟩
      · intro address haddress hother
        rw [assign_of_ne hother]
        exact hkeeps.cells address haddress
      · intro address found hfound
        have hother := ne_of_known happart hfound
        refine ⟨hother, ?_⟩
        rw [grown] at hfound ⊢
        rwa [assign_of_ne hother]
    · rw [mergeItems_shared (fun old override hold =>
        hplain old override (hlookup ▸ hold)), hmerge]
      have hknows := hknown.assign hapart key ref
      obtain ⟨after, hafter, hlooped⟩ := ih hrestBound hknows hapart hlt
        (assign_self hitems key ref) (hmerged.set key hvalue) hrest
      have hnext : heap.next ≤ (heap.assign merged key ref).next :=
        Nat.le_refl _
      refine ⟨after, hafter, Looped.back hnext ?_ ?_ hlooped⟩
      · intro address _ hother
        exact assign_of_ne hother key ref
      · intro address found hfound
        exact ⟨ne_of_known hapart hfound, hknown.grown address found hfound⟩

end Loop

/-! ## The recursion -/

theorem Heap.knows_copy (h : heap.Knows known) (base : ℕ) : (heap.copy base).Knows known := by
  intro address items hitems
  exact (Function.update_of_ne (Nat.ne_of_lt (h.lt hitems)) _ _).trans (h address items hitems)

theorem Heap.Knows.next (h : heap.Knows known) : known heap.next = none := by
  cases hcells : known heap.next with
  | none => rfl
  | some items => exact absurd (h.lt hcells) (Nat.lt_irrefl _)

theorem Heap.deepMerge_merges (depth : ℕ) (heap : Heap σ)
    (base override : ℕ) (known : ℕ → Option (Cells σ))
    (baseEntries entries : Entries σ)
    (hdepth : sizeOf (Value.dict entries) ≤ depth) (hknown : heap.Knows known)
    (hbase : Denotes known (.dict base) (.dict baseEntries))
    (hoverride : Denotes known (.dict override) (.dict entries)) :
    heap.MergesTo known (Value.deepMerge baseEntries entries)
      (deepMerge depth heap base override) := by
  induction depth generalizing heap base override known baseEntries entries with
  | zero =>
    rw [Value.dict.sizeOf_spec] at hdepth
    exact absurd (Nat.le_of_add_right_le hdepth) (by decide)
  | succ depth ih =>
    obtain ⟨cells, hcells, hall⟩ := denotes_dict_iff.mp hbase
    obtain ⟨items, hitems, hentries⟩ := denotes_dict_iff.mp hoverride
    have hbound : ∀ entry ∈ entries, sizeOf entry.2 ≤ depth :=
      fun entry hentry => Nat.le_of_lt_succ ((Value.sizeOf_lt_of_mem hentry).trans_le hdepth)
    have hcopy : (heap.copy base).cells heap.next = some cells :=
      (Function.update_self _ _ _).trans (hknown _ _ hcells)
    obtain ⟨after, hafter, hlooped⟩ := mergeItems_looped ih hbound
      (knows_copy hknown base) hknown.next (Nat.lt_succ_self _) hcopy hall
      hentries
    obtain ⟨made, hmade, hdenotes⟩ := hlooped.merged
    have hnext : heap.next ≤ after.next :=
      (Nat.le_succ _).trans hlooped.next
    refine ⟨after, heap.next, ?_, ⟨hnext, ?_⟩, denotes_dict_iff.mpr
      ⟨made, ?_, hdenotes.mono ?_⟩⟩
    · rw [deepMerge, hknown _ _ hitems]
      dsimp only
      rw [hafter, Option.map_some]
    · intro address hlt
      exact (hlooped.cells address (Nat.lt_succ_of_lt hlt)
        (Nat.ne_of_lt hlt)).trans (Function.update_of_ne (Nat.ne_of_lt hlt) _ _)
    · rw [grown, if_neg (Nat.lt_irrefl _)]
      exact hmade
    · intro address found hfound
      rw [grown] at hfound
      split at hfound
      · exact hknown.grown address found hfound
      · next hge =>
          rw [grown, if_neg fun hlt => hge (Nat.lt_succ_of_lt hlt)]
          exact hfound

theorem Heap.knows_cells (heap : Heap σ) : heap.Knows heap.cells :=
  fun _ _ hitems => hitems

theorem Heap.Keeps.denotes (h : heap.Keeps after) (hdenotes : Denotes heap.cells ref value) :
    Denotes after.cells ref value :=
  hdenotes.mono fun address _ hitems =>
    (h.cells address (heap.knows_cells.lt hitems)).trans hitems

theorem Heap.mergeLayers_merges {depth : ℕ} {merged : ℕ} {layers : List ℕ}
    {mergedEntries : Entries σ} {layerEntries : List (Entries σ)}
    (hdepth : ∀ entries ∈ layerEntries, sizeOf (Value.dict entries) ≤ depth)
    (hmerged : Denotes heap.cells (.dict merged) (.dict mergedEntries))
    (hlayers : List.Forall₂ (fun address entries =>
      Denotes heap.cells (.dict address) (.dict entries)) layers layerEntries) :
    ∃ after result, heap.mergeLayers depth merged layers =
        some (after, result) ∧ heap.Keeps after ∧
      Denotes after.cells (.dict result)
        (.dict (Value.mergeLayers mergedEntries layerEntries)) := by
  induction layers generalizing heap merged mergedEntries layerEntries with
  | nil =>
    cases hlayers
    exact ⟨heap, merged, rfl, ⟨Nat.le_refl _, fun _ _ => rfl⟩, hmerged⟩
  | cons layer layers ih =>
    cases hlayers with
    | @cons _ entries _ layerEntries hlayer hrest =>
      obtain ⟨middle, first, houtcome, hkeeps, hfirst⟩ :=
        heap.deepMerge_merges depth merged layer heap.cells mergedEntries
          entries (hdepth entries mem_cons_self) heap.knows_cells
          hmerged hlayer
      have hmiddle := hfirst.mono (hkeeps.knows_grown heap.knows_cells)
      obtain ⟨after, result, hafter, hkept, hresult⟩ := ih
        (fun other hother => hdepth other (mem_cons_of_mem _ hother))
        hmiddle (hrest.imp fun _ _ hdenotes => hkeeps.denotes hdenotes)
      refine ⟨after, result, ?_, hkeeps.trans hkept, hresult⟩
      rw [mergeLayers, houtcome]
      exact hafter

theorem entriesDistinct_of_nodup {entries : Entries σ} (hkeys : (entries.map Prod.fst).Nodup)
    (hvalues : ∀ entry ∈ entries, entry.2.KeysDistinct) :
    Value.EntriesDistinct entries := by
  induction entries with
  | nil => trivial
  | cons entry entries ih =>
    obtain ⟨key, value⟩ := entry
    obtain ⟨hkey, hrest⟩ := nodup_cons.mp hkeys
    refine ⟨?_, hvalues _ mem_cons_self, ih hrest fun other hother =>
      hvalues other (mem_cons_of_mem _ hother)⟩
    intro other hother hsame
    exact hkey (mem_map.mpr ⟨other, hother, hsame⟩)

theorem Heap.keysDistinct_of_denotes (heap : Heap σ) (h : Denotes heap.cells ref value) :
    value.KeysDistinct := by
  induction h with
  | null => trivial
  | text chars => trivial
  | scalar object => trivial
  | @dict address items entries hitems hkeys _ ih =>
    refine entriesDistinct_of_nodup (hkeys ▸ heap.distinct address items hitems) ?_
    intro entry hentry
    obtain ⟨i, hi, rfl⟩ := mem_iff_getElem.mp hentry
    have hlength : items.length = entries.length := by
      simpa using congrArg List.length hkeys
    have hpair : (items[i], entries[i]) ∈ items.zip entries := by
      rw [mem_iff_getElem]
      exact ⟨i, by simp [hlength, hi], by simp⟩
    exact ih _ hpair

/-! ## The merged layers -/

theorem Value.mergeLayers_twice (base layer : Entries σ)
    (front back : List (Entries σ)) (h : EntriesDistinct layer) :
    mergeLayers base (front ++ layer :: layer :: back) =
      mergeLayers base (front ++ layer :: back) := by
  unfold mergeLayers
  rw [foldl_append, foldl_append, foldl_cons, foldl_cons, foldl_cons, deepMerge_twice _ h]

/-- The last layer decides what is found under a path, no object of the layers
changes, and a layer may be merged twice in a row. -/
theorem mergeLayers_foundLast {heap : Heap σ} {base : ℕ} {layers : List ℕ}
    {baseEntries : Entries σ} {layerEntries : List (Entries σ)}
    (hbase : Denotes heap.cells (.dict base) (.dict baseEntries))
    (hlayers : List.Forall₂ (fun address entries =>
      Denotes heap.cells (.dict address) (.dict entries)) layers layerEntries) :
    (∃ depth, ∀ more ≥ depth, ∃ after merged,
      heap.mergeLayers more base layers = some (after, merged) ∧
        (∀ address < heap.next, after.cells address = heap.cells address) ∧
        Denotes after.cells (.dict merged)
          (.dict (Value.mergeLayers baseEntries layerEntries))) ∧
    (∀ path, Value.FoundLast baseEntries layerEntries path) ∧
    ∀ front layer back, layerEntries = front ++ layer :: layer :: back →
      Value.mergeLayers baseEntries layerEntries =
        Value.mergeLayers baseEntries (front ++ layer :: back) := by
  have hdistinct : ∀ entries ∈ layerEntries, Value.EntriesDistinct entries := by
    intro entries hentries
    obtain ⟨i, hi, rfl⟩ := mem_iff_getElem.mp hentries
    have hdenotes := (forall₂_iff_get.mp hlayers).2 i (by rw [hlayers.length_eq]; exact hi) hi
    exact heap.keysDistinct_of_denotes hdenotes
  refine ⟨?_, Value.foundLast baseEntries hdistinct, ?_⟩
  · refine ⟨sizeOf layerEntries, ?_⟩
    intro more hmore
    have hdepth : ∀ entries ∈ layerEntries, sizeOf (Value.dict entries) ≤ more := by
      intro entries hentries
      have hlt := sizeOf_lt_of_mem hentries
      rw [Value.dict.sizeOf_spec]
      omega
    obtain ⟨after, merged, houtcome, hkeeps, hdenotes⟩ :=
      Heap.mergeLayers_merges hdepth hbase hlayers
    exact ⟨after, merged, houtcome, hkeeps.cells, hdenotes⟩
  · rintro front layer back rfl
    exact Value.mergeLayers_twice _ _ _ _ (hdistinct layer (mem_append_right _ mem_cons_self))

/-- Two files with `a: {x: 1}` and `a: {y: {x: 1}}`, where the second refers to
the dictionary of the first. -/
def sharedLayers : Heap Empty :=
  .listed [[(['a'], .dict 1)], [(['x'], .text ['1'])], [(['a'], .dict 3)],
    [(['y'], .dict 1)]] (by decide)

theorem mergeLayers_sharedLayers : ∃ depth, ∀ more ≥ depth, ∃ after merged,
      sharedLayers.mergeLayers more 0 [2, 2] = some (after, merged) ∧
        (∀ address < sharedLayers.next, after.cells address = sharedLayers.cells address) ∧
        Denotes after.cells (.dict merged) (.dict [(['a'], .dict [(['x'], .text ['1']),
            (['y'], .dict [(['x'], .text ['1'])])])]) := by
  have hshared : Denotes sharedLayers.cells (.dict 1)
      (.dict [(['x'], .text ['1'])]) := denotes_singleton rfl (.text _)
  have hbase : Denotes sharedLayers.cells (.dict 0)
      (.dict [(['a'], .dict [(['x'], .text ['1'])])]) :=
    denotes_singleton rfl hshared
  have hlayer : Denotes sharedLayers.cells (.dict 2)
      (.dict [(['a'], .dict [(['y'], .dict [(['x'], .text ['1'])])])]) :=
    denotes_singleton rfl (denotes_singleton rfl hshared)
  exact (mergeLayers_foundLast hbase (.cons hlayer (.cons hlayer .nil))).1

end PyFly.Core
