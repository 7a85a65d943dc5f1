import PyFly.Library.InsertionDict
import PyFly.Library.TextReplacement

/-!
# Schemas and their references

A schema is a JSON value in which the strings under the key `$ref` refer to
other schemas.  `_rewrite_refs` turns the references into `$defs`, as Pydantic
writes them, into references into `components/schemas`.
-/

namespace PyFly.Web

open Library List

inductive SchemaClass (κ : Type)
  | model (cls : κ)
  | validationError
  | httpValidationError

inductive JsonSchema (κ : Type)
  | leaf (literal : List Char)
  | text (chars : List Char) (origin : Option (SchemaClass κ))
  | array (items : List (JsonSchema κ))
  | object (entries : List (List Char × JsonSchema κ)) (origin : Option (SchemaClass κ))

variable {κ : Type}

/-- A string under the key `$ref`. -/
@[ext]
structure Reference (κ : Type) where
  text : List Char
  origin : Option (SchemaClass κ)

def refKey : List Char := "$ref".toList

theorem refKey_eq : refKey = "$ref".toList :=
  rfl

def defsPath : List Char := "#/$defs/".toList

def componentsPath : List Char := "#/components/schemas/".toList

def Reference.Names (ref : Reference κ) (name : List Char) : Prop :=
  ref.text = defsPath ++ name ∨ ref.text = componentsPath ++ name

/-- What `_rewrite_refs` makes of a string under the key `$ref`. -/
def Reference.rewrite (ref : Reference κ) : Reference κ :=
  if defsPath <+: ref.text then
    { ref with text := replaceAll defsPath componentsPath ref.text }
  else ref

namespace JsonSchema

def asReference : JsonSchema κ → Option (Reference κ)
  | text chars origin => some ⟨chars, origin⟩
  | _ => none

def origin : JsonSchema κ → Option (SchemaClass κ)
  | text _ origin | object _ origin => origin
  | _ => none

def get? (key : List Char) : JsonSchema κ → Option (JsonSchema κ)
  | object entries _ => (entries.find? fun entry => entry.1 = key).map Prod.snd
  | _ => none

def directRef (schema : JsonSchema κ) : Option (Reference κ) :=
  (schema.get? refKey).bind asReference

mutual

def references : JsonSchema κ → List (Reference κ)
  | leaf _ => []
  | text _ _ => []
  | array items => itemReferences items
  | object entries _ => entryReferences entries

def itemReferences : List (JsonSchema κ) → List (Reference κ)
  | [] => []
  | item :: items => references item ++ itemReferences items

def entryReferences : List (List Char × JsonSchema κ) → List (Reference κ)
  | [] => []
  | (key, value) :: entries =>
    (if key = refKey then value.asReference.toList else []) ++
      references value ++ entryReferences entries

end

mutual

def rewriteRefs : JsonSchema κ → JsonSchema κ
  | object entries origin => object (rewriteEntries entries) origin
  | array items => array (rewriteItems items)
  | text chars origin => text chars origin
  | leaf literal => leaf literal

def rewriteItems : List (JsonSchema κ) → List (JsonSchema κ)
  | [] => []
  | item :: items => rewriteRefs item :: rewriteItems items

def rewriteEntries : List (List Char × JsonSchema κ) → List (List Char × JsonSchema κ)
  | [] => []
  | (key, value) :: entries =>
    (key, match value with
      | text chars origin =>
        if key = refKey ∧ defsPath <+: chars then
          text (replaceAll defsPath componentsPath chars) origin
        else text chars origin
      | _ => rewriteRefs value) :: rewriteEntries entries

end

/-! ## References of an object -/

theorem entryReferences_eq_flatMap (entries : List (List Char × JsonSchema κ)) :
    entryReferences entries = entries.flatMap fun entry =>
        (if entry.1 = refKey then entry.2.asReference.toList else []) ++
          entry.2.references := by
  induction entries with
  | nil => rfl
  | cons entry entries ih =>
    obtain ⟨key, value⟩ := entry
    rw [entryReferences, ih, flatMap_cons]

theorem references_object (entries : List (List Char × JsonSchema κ))
    (origin : Option (SchemaClass κ)) :
    (object entries origin).references = entries.flatMap fun entry =>
        (if entry.1 = refKey then entry.2.asReference.toList else []) ++
          entry.2.references :=
  entryReferences_eq_flatMap entries

theorem itemReferences_eq_flatMap (items : List (JsonSchema κ)) :
    itemReferences items = items.flatMap references := by
  induction items with
  | nil => rfl
  | cons item items ih => rw [itemReferences, ih, flatMap_cons]

theorem references_array (items : List (JsonSchema κ)) :
    (array items).references = items.flatMap references :=
  itemReferences_eq_flatMap items

theorem mem_references_object {entries : List (List Char × JsonSchema κ)}
    {origin : Option (SchemaClass κ)} {ref : Reference κ}
    (hobjects : ∀ entry ∈ entries, entry.2.asReference = none) :
    ref ∈ (object entries origin).references ↔ ∃ entry ∈ entries, ref ∈ entry.2.references := by
  rw [references_object, mem_flatMap]
  constructor
  · rintro ⟨entry, hentry, hmem⟩
    rw [hobjects entry hentry] at hmem
    exact ⟨entry, hentry, by simpa using hmem⟩
  · rintro ⟨entry, hentry, hmem⟩
    exact ⟨entry, hentry, mem_append_right _ hmem⟩

theorem mem_references_of_directRef {schema : JsonSchema κ}
    {ref : Reference κ} (h : schema.directRef = some ref) :
    ref ∈ schema.references := by
  obtain ⟨value, hvalue, href⟩ := Option.bind_eq_some_iff.mp h
  cases schema with
  | object entries origin =>
    obtain ⟨entry, hfind, rfl⟩ := Option.map_eq_some_iff.mp hvalue
    have hkey : entry.1 = refKey := by simpa using List.find?_some hfind
    rw [references_object, mem_flatMap]
    refine ⟨entry, mem_of_find?_eq_some hfind, ?_⟩
    simp [hkey, href]
  | leaf literal => cases hvalue
  | text chars origin => cases hvalue
  | array items => cases hvalue

/-! ## Rewriting -/

theorem rewriteEntries_cons (key : List Char) (value : JsonSchema κ)
    (entries : List (List Char × JsonSchema κ)) :
    ∃ value', rewriteEntries ((key, value) :: entries) =
        (key, value') :: rewriteEntries entries ∧
      value'.references = (rewriteRefs value).references ∧
      (key = refKey → value'.asReference = value.asReference.map Reference.rewrite) := by
  refine ⟨_, rfl, ?_⟩
  cases value with
  | text chars origin =>
    constructor
    · dsimp only
      split <;> rfl
    · intro hkey
      by_cases hdefs : defsPath <+: chars <;> simp [hkey, hdefs, asReference, Reference.rewrite]
  | leaf literal => exact ⟨rfl, fun _ => rfl⟩
  | array items => exact ⟨rfl, fun _ => rfl⟩
  | object entries' origin => exact ⟨rfl, fun _ => rfl⟩

mutual

theorem references_rewriteRefs : ∀ schema : JsonSchema κ,
    (rewriteRefs schema).references = schema.references.map Reference.rewrite
  | leaf _ => rfl
  | text _ _ => rfl
  | array items => itemReferences_rewriteItems items
  | object entries _ => entryReferences_rewriteEntries entries

theorem itemReferences_rewriteItems : ∀ items : List (JsonSchema κ),
    itemReferences (rewriteItems items) = (itemReferences items).map Reference.rewrite
  | [] => rfl
  | item :: items => by
      rw [rewriteItems, itemReferences, itemReferences, map_append,
        references_rewriteRefs item, itemReferences_rewriteItems items]

theorem entryReferences_rewriteEntries : ∀ entries : List (List Char × JsonSchema κ),
      entryReferences (rewriteEntries entries) = (entryReferences entries).map Reference.rewrite
  | [] => rfl
  | (key, value) :: entries => by
      obtain ⟨value', hrewritten, hreferences, hdirect⟩ :=
        rewriteEntries_cons key value entries
      rw [hrewritten, entryReferences, entryReferences, map_append,
        map_append, hreferences, references_rewriteRefs value,
        entryReferences_rewriteEntries entries]
      by_cases hkey : key = refKey
      · rw [if_pos hkey, if_pos hkey, hdirect hkey, Option.toList_map]
      · rw [if_neg hkey, if_neg hkey, map_nil]

end

mutual

/-- Without references into `$defs` there is nothing to rewrite. -/
theorem rewriteRefs_of_forall : ∀ schema : JsonSchema κ,
    (∀ ref ∈ schema.references, ¬ defsPath <+: ref.text) → rewriteRefs schema = schema
  | leaf _, _ => rfl
  | text _ _, _ => rfl
  | array items, h => by rw [rewriteRefs, rewriteItems_of_forall items h]
  | object entries _, h => by
      rw [rewriteRefs, rewriteEntries_of_forall entries h]

theorem rewriteItems_of_forall : ∀ items : List (JsonSchema κ),
    (∀ ref ∈ itemReferences items, ¬ defsPath <+: ref.text) → rewriteItems items = items
  | [], _ => rfl
  | item :: items, h => by
      rw [rewriteItems, rewriteRefs_of_forall item fun ref href =>
          h ref (mem_append_left _ href),
        rewriteItems_of_forall items fun ref href =>
          h ref (mem_append_right _ href)]

theorem rewriteEntries_of_forall : ∀ entries : List (List Char × JsonSchema κ),
      (∀ ref ∈ entryReferences entries, ¬ defsPath <+: ref.text) →
        rewriteEntries entries = entries
  | [], _ => rfl
  | (key, value) :: entries, h => by
      have hentries := rewriteEntries_of_forall entries fun ref href =>
        h ref (mem_append_right _ href)
      have hvalue := rewriteRefs_of_forall value fun ref href =>
        h ref (mem_append_left _ (mem_append_right _ href))
      have hdirect : key = refKey → ∀ ref, value.asReference = some ref →
          ¬ defsPath <+: ref.text := fun hkey ref href =>
        h ref (mem_append_left _ (mem_append_left _ (by simp [hkey, href])))
      cases value with
      | text chars origin =>
        rw [rewriteEntries, if_neg fun hboth => hdirect hboth.1 _ rfl hboth.2, hentries]
      | leaf literal =>
        show (key, rewriteRefs (leaf literal)) :: rewriteEntries entries = _
        rw [hvalue, hentries]
      | array items =>
        show (key, rewriteRefs (array items)) :: rewriteEntries entries = _
        rw [hvalue, hentries]
      | object inner origin =>
        show (key, rewriteRefs (object inner origin)) :: rewriteEntries entries = _
        rw [hvalue, hentries]

end

theorem origin_rewriteRefs (schema : JsonSchema κ) :
    (rewriteRefs schema).origin = schema.origin := by
  cases schema <;> rfl

theorem directRef_rewriteRefs (schema : JsonSchema κ) :
    (rewriteRefs schema).directRef = schema.directRef.map Reference.rewrite := by
  cases schema with
  | leaf literal => rfl
  | text chars origin => rfl
  | array items => rfl
  | object entries origin =>
    show (((rewriteEntries entries).find? fun entry =>
        entry.1 = refKey).map Prod.snd).bind asReference =
      (((entries.find? fun entry => entry.1 = refKey).map Prod.snd).bind
        asReference).map Reference.rewrite
    induction entries with
    | nil => rfl
    | cons entry entries ih =>
      obtain ⟨key, value⟩ := entry
      obtain ⟨value', hrewritten, -, hdirect⟩ :=
        rewriteEntries_cons key value entries
      rw [hrewritten]
      by_cases hkey : key = refKey
      · simp [hkey, hdirect hkey]
      · simpa [hkey] using ih

end JsonSchema

namespace Reference

theorem not_defsPath_isPrefix_components (name : List Char) :
    ¬ defsPath <+: componentsPath ++ name := by
  intro h
  have htake := prefix_iff_eq_take.mp h
  rw [take_append_of_le_length (by decide)] at htake
  exact absurd htake (by decide)

/-- Without a `#` in the name, only the path of a reference is rewritten. -/
theorem text_rewrite_of_names {ref : Reference κ} {name : List Char}
    (h : ref.Names name) (hplain : '#' ∉ name) :
    ref.rewrite.text = componentsPath ++ name := by
  rcases h with hdefs | hcomponents
  · have habsent : ¬ defsPath <:+: name := fun hoccurs =>
      hplain (hoccurs.subset (by decide))
    rw [rewrite, if_pos ⟨name, hdefs.symm⟩, hdefs,
      replaceAll_append (by decide), replaceAll_of_absent _ habsent]
  · rw [rewrite, if_neg]
    · exact hcomponents
    · rw [hcomponents]
      exact not_defsPath_isPrefix_components name

@[simp] theorem origin_rewrite (ref : Reference κ) :
    ref.rewrite.origin = ref.origin := by
  unfold rewrite
  split <;> rfl

theorem names_unique {ref : Reference κ} {name other : List Char}
    (hname : ref.Names name) (hother : ref.Names other) : name = other := by
  rcases hname with hname | hname <;> rcases hother with hother | hother
  · exact append_cancel_left (hname.symm.trans hother)
  · exact absurd ⟨name, hname.symm.trans hother⟩ (not_defsPath_isPrefix_components other)
  · exact absurd ⟨other, hother.symm.trans hname⟩ (not_defsPath_isPrefix_components name)
  · exact append_cancel_left (hname.symm.trans hother)

end Reference
end PyFly.Web
