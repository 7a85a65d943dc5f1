import PyFly.OpenAPINames

/-!
# The references of an OpenAPI document

Every reference of a document names a schema.  It is the schema of the class
which is meant exactly when the names are given away without a clash, and no
model's schema is a reference to the name under which it is registered.
-/

namespace PyFly.Web

open Library JsonSchema List

variable {κ : Type}

def owner (table : Schemas κ) (name : List Char) : Option (SchemaClass κ) :=
  (table.get? name).bind origin

/-- Every name that is referred to belongs to the class which is meant, and no
schema is a reference to itself. -/
structure NamesAgree (pydantic : Pydantic κ) (lower : List Char → List Char)
    (metadata : List (RouteMetadata κ)) : Prop where
  mentioned : ∀ path method route, lastRoute lower metadata path method = some route →
      ∀ mention ∈ route.mentions pydantic,
        owner (nameTable pydantic metadata) mention.1 = some mention.2
  nested : ∀ entry ∈ (nameTable pydantic metadata).items,
    ∀ ref ∈ entry.2.references, ∀ name, ref.Names name →
      owner (nameTable pydantic metadata) name = ref.origin
  progress : ∀ entry ∈ (nameTable pydantic metadata).items,
    ∀ ref, entry.2.directRef = some ref → ¬ ref.Names entry.1

/-! ## What the table contains -/

variable {group : SchemaGroup κ}

theorem groups_cases {pydantic : Pydantic κ} {route : RouteMetadata κ}
    (h : group ∈ route.groups pydantic) :
    group = .validationError ∨ group = .httpValidationError ∨
      ∃ model, group = pydantic.group model := by
  rcases mem_append.mp h with hresponse | hbody
  · obtain ⟨model, -, rfl⟩ := mem_map.mp hresponse
    exact Or.inr (Or.inr ⟨model, rfl⟩)
  · cases hmodel : route.requestBodyModel with
    | none =>
      rw [hmodel] at hbody
      simp at hbody
    | some model =>
      rw [hmodel] at hbody
      rcases mem_cons.mp hbody with rfl | hbody
      · exact Or.inl rfl
      · rcases mem_cons.mp hbody with rfl | hbody
        · exact Or.inr (Or.inl rfl)
        · exact Or.inr (Or.inr ⟨model, mem_singleton.mp hbody⟩)

variable {table : Schemas κ} {name : List Char} {schema : JsonSchema κ}

theorem get?_foldl_allot_cases {groups : List (SchemaGroup κ)}
    (h : (groups.foldl allot table).get? name = some schema) :
    table.get? name = some schema ∨ ∃ group ∈ groups, group.offer name = some schema := by
  induction groups generalizing table with
  | nil => exact Or.inl h
  | cons group groups ih =>
    rcases ih h with hallot | ⟨other, hmem, hoffer⟩
    · by_cases hkey : group.name ∈ table.keys
      · rw [allot_of_mem hkey] at hallot
        exact Or.inl hallot
      · rw [get?_allot hkey] at hallot
        rcases Option.or_eq_some_iff.mp hallot with hold | ⟨-, hoffer⟩
        · exact Or.inl hold
        · exact Or.inr ⟨group, mem_cons_self, hoffer⟩
    · exact Or.inr ⟨other, mem_cons_of_mem _ hmem, hoffer⟩

theorem mem_keys_allot : name ∈ (allot table group).keys ↔ name ∈ table.keys ∨
        group.name ∉ table.keys ∧ (group.offer name).isSome = true := by
  by_cases hkey : group.name ∈ table.keys
  · rw [allot_of_mem hkey]
    simp [hkey]
  · rw [Dict.mem_keys_iff, get?_allot hkey, Dict.mem_keys_iff]
    simp only [hkey, not_false_eq_true, true_and, Option.isSome_iff_exists]
    constructor
    · rintro ⟨schema, hschema⟩
      rcases Option.or_eq_some_iff.mp hschema with hold | ⟨-, hoffer⟩
      · exact Or.inl ⟨schema, hold⟩
      · exact Or.inr ⟨schema, hoffer⟩
    · rintro (⟨schema, hold⟩ | ⟨schema, hoffer⟩)
      · exact ⟨schema, by rw [hold]; rfl⟩
      · cases hget : table.get? name with
        | some old => exact ⟨old, rfl⟩
        | none => exact ⟨schema, hoffer⟩

def Closed (table : Schemas κ) : Prop :=
  ∀ name schema, table.get? name = some schema → ∀ ref ∈ schema.references, ∃ target,
      ref.Names target ∧ '#' ∉ target ∧ target ∈ table.keys

theorem Closed.allot (h : Closed table)
    (hgroup : ∀ name schema, group.offer name = some schema →
      ∀ ref ∈ schema.references, ∃ target, ref.Names target ∧ '#' ∉ target ∧
          (target ∈ table.keys ∨ (group.offer target).isSome = true)) :
    Closed (allot table group) := by
  by_cases hkey : group.name ∈ table.keys
  · rw [allot_of_mem hkey]
    exact h
  · intro name schema hget ref href
    rw [get?_allot hkey] at hget
    rcases Option.or_eq_some_iff.mp hget with hold | ⟨-, hoffer⟩
    · obtain ⟨target, hnames, hplain, hmem⟩ := h name schema hold ref href
      exact ⟨target, hnames, hplain, mem_keys_allot.mpr (Or.inl hmem)⟩
    · obtain ⟨target, hnames, hplain, hmem⟩ :=
        hgroup name schema hoffer ref href
      exact ⟨target, hnames, hplain,
        mem_keys_allot.mpr (hmem.imp_right fun hsome => ⟨hkey, hsome⟩)⟩

theorem Closed.allot_model (h : Closed table) (pydantic : Pydantic κ) (model : κ) :
    Closed (PyFly.Web.allot table (pydantic.group model)) := by
  apply h.allot
  intro name schema hoffer ref href
  have hvalue : schema ∈ pydantic.schema model :: (pydantic.defs model).values := by
    unfold SchemaGroup.offer at hoffer
    split at hoffer
    · rw [← Option.some.inj hoffer]
      exact mem_cons_self
    · exact mem_cons_of_mem _ (mem_map.mpr ⟨_, Dict.get?_eq_some_iff.mp hoffer, rfl⟩)
  obtain ⟨target, found, htext, hfound, -⟩ :=
    pydantic.closed model schema hvalue ref href
  refine ⟨target, Or.inl htext, ?_, Or.inr ?_⟩
  · exact pydantic.plain model target (Dict.mem_keys_of_get? hfound)
  · unfold SchemaGroup.offer
    split
    · rfl
    · exact Option.isSome_of_eq_some hfound

theorem Closed.allot_errors (h : Closed table) :
    Closed (PyFly.Web.allot (PyFly.Web.allot table .validationError) .httpValidationError) := by
  have hoffer : ∀ {group : SchemaGroup κ} {name : List Char}
      {schema : JsonSchema κ}, group.definitions = .empty →
        group.offer name = some schema → schema = group.schema := by
    intro group name schema hempty hoffer
    unfold SchemaGroup.offer at hoffer
    split at hoffer
    · exact (Option.some.inj hoffer).symm
    · rw [hempty] at hoffer
      cases hoffer
  have hfirst : Closed (PyFly.Web.allot table .validationError) := by
    apply h.allot
    intro name schema hschema ref href
    rw [hoffer rfl hschema, SchemaGroup.validationError,
      references_validationErrorSchema] at href
    cases href
  apply hfirst.allot
  intro name schema hschema ref href
  rw [hoffer rfl hschema, SchemaGroup.httpValidationError,
    references_httpValidationErrorSchema, mem_singleton] at href
  refine ⟨validationErrorName, Or.inr (by rw [href]), by decide, Or.inl ?_⟩
  rw [mem_keys_allot]
  by_cases hkey : validationErrorName ∈ table.keys
  · exact Or.inl hkey
  · refine Or.inr ⟨hkey, ?_⟩
    rw [SchemaGroup.offer, SchemaGroup.validationError, if_pos rfl]
    rfl

theorem Closed.route (h : Closed table) (pydantic : Pydantic κ) (route : RouteMetadata κ) :
    Closed ((route.groups pydantic).foldl PyFly.Web.allot table) := by
  have hresponse : Closed ((route.responseModel.toList.map
      pydantic.group).foldl PyFly.Web.allot table) := by
    cases route.responseModel with
    | none => exact h
    | some model => exact h.allot_model pydantic model
  rw [RouteMetadata.groups, foldl_append]
  cases route.requestBodyModel with
  | none => exact hresponse
  | some model => exact hresponse.allot_errors.allot_model pydantic model

variable (pydantic : Pydantic κ) (metadata : List (RouteMetadata κ))

theorem closed_nameTable : Closed (nameTable pydantic metadata) := by
  induction metadata using List.reverseRecOn with
  | nil =>
    intro name schema hget
    cases hget
  | append_singleton metadata route ih =>
    rw [nameTable, flatMap_append, foldl_append, flatMap_singleton]
    exact ih.route pydantic route

theorem nameTable_cases (h : (nameTable pydantic metadata).get? name = some schema) :
    (∃ model, name = pydantic.className model ∧ schema = pydantic.schema model) ∨
      schema.directRef = none ∧ ∃ entries cls, schema = .object entries (some cls) := by
  rcases get?_foldl_allot_cases h with hempty | ⟨group, hmem, hoffer⟩
  · cases hempty
  obtain ⟨route, -, hroute⟩ := mem_flatMap.mp hmem
  unfold SchemaGroup.offer at hoffer
  rcases groups_cases hroute with rfl | rfl | ⟨model, rfl⟩
  · split at hoffer
    · rw [← Option.some.inj hoffer]
      exact Or.inr ⟨by
        simp [SchemaGroup.validationError, validationErrorSchema, directRef,
          JsonSchema.get?, refKey_eq], _, _, rfl⟩
    · cases hoffer
  · split at hoffer
    · rw [← Option.some.inj hoffer]
      exact Or.inr ⟨by
        simp [SchemaGroup.httpValidationError, httpValidationErrorSchema,
          directRef, JsonSchema.get?, refKey_eq], _, _, rfl⟩
    · cases hoffer
  · split at hoffer
    · next hname =>
        exact Or.inl ⟨model, hname, (Option.some.inj hoffer).symm⟩
    · have hitem := Dict.get?_eq_some_iff.mp hoffer
      obtain ⟨entries, cls, hobject⟩ := pydantic.defs_object model _ hitem
      exact Or.inr ⟨pydantic.defs_directRef model schema
        (mem_map.mpr ⟨_, hitem, rfl⟩), entries, .model cls, hobject⟩

theorem exists_object_of_get? (h : (nameTable pydantic metadata).get? name = some schema) :
    ∃ entries cls, schema = .object entries (some cls) := by
  rcases nameTable_cases pydantic metadata h with
    ⟨model, -, rfl⟩ | ⟨-, hobject⟩
  · obtain ⟨entries, hobject⟩ := pydantic.schema_object model
    exact ⟨entries, .model model, hobject⟩
  · exact hobject

section Document

variable (generator : OpenAPIGenerator) (lower : List Char → List Char)

theorem generate_some : generator.generate pydantic lower (some metadata) =
      generator.spec (buildPaths pydantic lower metadata).1
        (buildPaths pydantic lower metadata).2 (collectTags metadata) := by
  cases metadata <;> rfl

theorem component_generate (name : List Char) :
    component (generator.generate pydantic lower (some metadata)) name =
      ((nameTable pydantic metadata).get? name).map rewriteRefs := by
  rw [generate_some, OpenAPIGenerator.component_spec]
  exact represents_buildPaths pydantic lower metadata name

variable {ref : Reference κ}

theorem mem_references_paths : ref ∈ (OpenAPIGenerator.pathsJson
        (buildPaths pydantic lower metadata).1).references ↔
      ∃ path method route, lastRoute lower metadata path method = some route ∧
          ∃ mention ∈ route.mentions pydantic, ref = mentionRef mention := by
  have hlookup := lookup_buildPaths pydantic lower metadata
  generalize (buildPaths pydantic lower metadata).1 = paths at *
  have hoperation : ∀ {path methods method found},
      (path, methods) ∈ paths.items → (method, found) ∈ methods.items →
        ∃ route, lastRoute lower metadata path method = some route ∧
          operation pydantic route = found := by
    intro path methods method found hmethods hfound
    apply Option.map_eq_some_iff.mp
    rw [← hlookup, Paths.lookup, Dict.get?_eq_some_iff.mpr hmethods]
    exact Dict.get?_eq_some_iff.mpr hfound
  rw [OpenAPIGenerator.pathsJson, mem_references_object (by
    intro entry hentry
    obtain ⟨item, -, rfl⟩ := mem_map.mp hentry
    rfl)]
  constructor
  · rintro ⟨entry, hentry, href⟩
    obtain ⟨⟨path, methods⟩, hmethods, rfl⟩ := mem_map.mp hentry
    rw [mem_references_object (by
      intro other hother
      obtain ⟨route, -, hfound⟩ := hoperation hmethods hother
      rw [← hfound]
      exact asReference_operation pydantic route)] at href
    obtain ⟨⟨method, found⟩, hfound, href⟩ := href
    obtain ⟨route, hroute, rfl⟩ := hoperation hmethods hfound
    rw [references_operation] at href
    obtain ⟨mention, hmention, rfl⟩ := mem_map.mp href
    exact ⟨path, method, route, hroute, mention, hmention, rfl⟩
  · rintro ⟨path, method, route, hroute, mention, hmention, rfl⟩
    have hfound := hlookup path method
    rw [hroute, Option.map_some] at hfound
    obtain ⟨methods, hmethods, hget⟩ := Option.bind_eq_some_iff.mp hfound
    refine ⟨(path, .object methods.items none), mem_map.mpr
      ⟨(path, methods), Dict.get?_eq_some_iff.mp hmethods, rfl⟩, ?_⟩
    rw [references_object, mem_flatMap]
    refine ⟨(method, operation pydantic route),
      Dict.get?_eq_some_iff.mp hget, mem_append_right _ ?_⟩
    rw [references_operation]
    exact mem_map_of_mem hmention

theorem mem_references_schemas :
    ref ∈ (object (buildPaths pydantic lower metadata).2.items none).references ↔
      ∃ name schema, (nameTable pydantic metadata).get? name = some schema ∧
        ∃ inner ∈ schema.references, ref = inner.rewrite := by
  have hrepresents := represents_buildPaths pydantic lower metadata
  generalize (buildPaths pydantic lower metadata).2 = schemas at *
  have hschema : ∀ {name value}, (name, value) ∈ schemas.items ↔
      ∃ schema, (nameTable pydantic metadata).get? name = some schema ∧
        rewriteRefs schema = value := by
    intro name value
    rw [← Dict.get?_eq_some_iff, hrepresents name, Option.map_eq_some_iff]
  rw [mem_references_object (by
    rintro ⟨name, value⟩ hentry
    obtain ⟨schema, hget, rfl⟩ := hschema.mp hentry
    obtain ⟨entries, cls, rfl⟩ := exists_object_of_get? pydantic metadata hget
    rfl)]
  constructor
  · rintro ⟨⟨name, value⟩, hentry, href⟩
    obtain ⟨schema, hget, rfl⟩ := hschema.mp hentry
    rw [references_rewriteRefs] at href
    obtain ⟨inner, hinner, rfl⟩ := mem_map.mp href
    exact ⟨name, schema, hget, inner, hinner, rfl⟩
  · rintro ⟨name, schema, hget, inner, hinner, rfl⟩
    refine ⟨(name, rewriteRefs schema), hschema.mpr ⟨schema, hget, rfl⟩, ?_⟩
    rw [references_rewriteRefs]
    exact mem_map_of_mem hinner

theorem mem_references_generate :
    ref ∈ (generator.generate pydantic lower (some metadata)).references ↔
      (∃ path method route, lastRoute lower metadata path method = some route ∧
          ∃ mention ∈ route.mentions pydantic, ref = mentionRef mention) ∨
        ∃ name schema, (nameTable pydantic metadata).get? name = some schema ∧
          ∃ inner ∈ schema.references, ref = inner.rewrite := by
  rw [generate_some, OpenAPIGenerator.references_spec, mem_append,
    mem_references_paths, mem_references_schemas]

/-! ## Following references -/

variable {name : List Char}

theorem componentsPath_cancel {other : List Char}
    (h : componentsPath ++ name = componentsPath ++ other) : name = other :=
  append_cancel_left h

variable {schema : JsonSchema κ}

theorem LeadsTo.unique {document : JsonSchema κ} {other : JsonSchema κ}
    (h : LeadsTo document ref schema) (hother : LeadsTo document ref other) :
    schema = other := by
  induction h with
  | schema htext hcomponent hdirect =>
    cases hother with
    | schema htext' hcomponent' hdirect' =>
      rw [componentsPath_cancel (htext.symm.trans htext'), hcomponent'] at hcomponent
      exact (Option.some.inj hcomponent).symm
    | reference htext' hcomponent' hdirect' hrest =>
      rw [componentsPath_cancel (htext.symm.trans htext'), hcomponent'] at hcomponent
      rw [← Option.some.inj hcomponent, hdirect'] at hdirect
      cases hdirect
  | reference htext hcomponent hdirect hrest ih =>
    cases hother with
    | schema htext' hcomponent' hdirect' =>
      rw [componentsPath_cancel (htext.symm.trans htext'), hcomponent'] at hcomponent
      rw [← Option.some.inj hcomponent, hdirect'] at hdirect
      cases hdirect
    | reference htext' hcomponent' hdirect' hrest' =>
      rw [componentsPath_cancel (htext.symm.trans htext'), hcomponent'] at hcomponent
      rw [← Option.some.inj hcomponent, hdirect'] at hdirect
      rw [← Option.some.inj hdirect] at ih
      exact ih hrest'

theorem not_leadsTo_of_self {document : JsonSchema κ} {result : JsonSchema κ}
    {next : Reference κ} (hcomponent : component document name = some schema)
    (hdirect : schema.directRef = some next)
    (hnext : next.text = componentsPath ++ name)
    (htext : ref.text = componentsPath ++ name) :
    ¬ LeadsTo document ref result := by
  intro h
  induction h with
  | schema htext' hcomponent' hdirect' =>
    rw [componentsPath_cancel (htext'.symm.trans htext), hcomponent] at hcomponent'
    rw [← Option.some.inj hcomponent', hdirect] at hdirect'
    cases hdirect'
  | reference htext' hcomponent' hdirect' hrest ih =>
    rw [componentsPath_cancel (htext'.symm.trans htext), hcomponent] at hcomponent'
    rw [← Option.some.inj hcomponent', hdirect] at hdirect'
    exact ih (by rw [← Option.some.inj hdirect', hnext])

variable {pydantic metadata generator lower}

theorem directRef_cases {next : Reference κ}
    (h : (nameTable pydantic metadata).get? name = some schema)
    (hdirect : schema.directRef = some next) :
    ∃ model, name = pydantic.className model ∧ schema.origin = some (.model model) ∧
        next.origin = some (.model model) := by
  rcases nameTable_cases pydantic metadata h with
    ⟨model, hname, rfl⟩ | ⟨hnone, -⟩
  · obtain ⟨entries, hobject⟩ := pydantic.schema_object model
    exact ⟨model, hname, by rw [hobject]; rfl,
      pydantic.schema_directRef model next hdirect⟩
  · rw [hnone] at hdirect
    cases hdirect

theorem NamesAgree.leadsTo (h : NamesAgree pydantic lower metadata)
    (hget : (nameTable pydantic metadata).get? name = some schema)
    (htext : ref.text = componentsPath ++ name) :
    ∃ result, LeadsTo (generator.generate pydantic lower (some metadata)) ref
        result ∧ result.origin = schema.origin := by
  have hcomponent : ∀ {name schema}, (nameTable pydantic metadata).get? name = some schema →
        component (generator.generate pydantic lower (some metadata)) name =
          some (rewriteRefs schema) := by
    intro name schema hget
    rw [component_generate, hget]
    rfl
  cases hdirect : schema.directRef with
  | none =>
    refine ⟨rewriteRefs schema, .schema htext (hcomponent hget) ?_, origin_rewriteRefs schema⟩
    rw [directRef_rewriteRefs, hdirect]
    rfl
  | some next =>
    have hmem := mem_references_of_directRef hdirect
    obtain ⟨target, hnames, hplain, htarget⟩ :=
      closed_nameTable pydantic metadata name schema hget next hmem
    obtain ⟨found, hfound⟩ := Dict.mem_keys_iff.mp htarget
    obtain ⟨model, hname, horigin, hnext⟩ := directRef_cases hget hdirect
    have hitem := Dict.get?_eq_some_iff.mp hget
    have howner : found.origin = some (.model model) := by
      have hnested := h.nested _ hitem next hmem target hnames
      rw [owner, hfound, hnext] at hnested
      exact hnested
    -- Only the schema of the model itself could be a reference again.
    have hdone : found.directRef = none := by
      cases hagain : found.directRef with
      | none => rfl
      | some again =>
        obtain ⟨other, hother, hsame, -⟩ := directRef_cases hfound hagain
        rw [howner] at hsame
        have hmodel := SchemaClass.model.inj (Option.some.inj hsame)
        rw [← hmodel, ← hname] at hother
        exact absurd (hother ▸ hnames) (h.progress _ hitem next hdirect)
    refine ⟨rewriteRefs found, .reference htext (hcomponent hget) (by
        rw [directRef_rewriteRefs, hdirect, Option.map_some])
        (.schema (Reference.text_rewrite_of_names hnames hplain) (hcomponent hfound) ?_), ?_⟩
    · rw [directRef_rewriteRefs, hdone]
      rfl
    · rw [origin_rewriteRefs, howner, horigin]

theorem NamesAgree.resolves (h : NamesAgree pydantic lower metadata) :
    ResolvesReferences (generator.generate pydantic lower (some metadata)) := by
  have hleads : ∀ {name cls} {ref : Reference κ},
      owner (nameTable pydantic metadata) name = some cls →
        ref.text = componentsPath ++ name → ref.origin = some cls →
          ∃ cls schema, ref.origin = some cls ∧
            LeadsTo (generator.generate pydantic lower (some metadata)) ref
              schema ∧ schema.origin = some cls := by
    intro name cls ref howner htext horigin
    obtain ⟨schema, hget, hschema⟩ := Option.bind_eq_some_iff.mp howner
    obtain ⟨result, hresult, hsame⟩ := h.leadsTo hget htext
    exact ⟨cls, result, horigin, hresult, hsame.trans hschema⟩
  intro ref href
  rcases mem_references_generate pydantic metadata generator lower
    |>.mp href with
    ⟨path, method, route, hroute, mention, hmention, rfl⟩ |
    ⟨name, schema, hget, inner, hinner, rfl⟩
  · exact hleads (h.mentioned path method route hroute mention hmention) rfl rfl
  · obtain ⟨target, hnames, hplain, htarget⟩ :=
      closed_nameTable pydantic metadata name schema hget inner hinner
    have howner := h.nested _ (Dict.get?_eq_some_iff.mp hget) inner hinner target hnames
    obtain ⟨found, hfound⟩ := Dict.mem_keys_iff.mp htarget
    obtain ⟨entries, cls, hobject⟩ :=
      exists_object_of_get? pydantic metadata hfound
    have hcls : owner (nameTable pydantic metadata) target = some cls := by
      rw [owner, hfound, hobject]
      rfl
    refine hleads hcls (Reference.text_rewrite_of_names hnames hplain) ?_
    rw [Reference.origin_rewrite, ← howner, hcls]

theorem owner_of_leadsTo (h : ResolvesReferences
      (generator.generate pydantic lower (some metadata)))
    {result : JsonSchema κ} (htext : ref.text = componentsPath ++ name)
    (hleads : LeadsTo (generator.generate pydantic lower (some metadata)) ref result) :
    owner (nameTable pydantic metadata) name = result.origin := by
  cases hleads with
  | schema htext' hcomponent hdirect =>
    rw [componentsPath_cancel (htext'.symm.trans htext), component_generate] at hcomponent
    obtain ⟨schema, hget, rfl⟩ := Option.map_eq_some_iff.mp hcomponent
    rw [owner, hget, origin_rewriteRefs]
    rfl
  | reference htext' hcomponent hdirect hrest =>
    rw [componentsPath_cancel (htext'.symm.trans htext), component_generate] at hcomponent
    obtain ⟨schema, hget, rfl⟩ := Option.map_eq_some_iff.mp hcomponent
    rw [directRef_rewriteRefs] at hdirect
    obtain ⟨next, hnext, rfl⟩ := Option.map_eq_some_iff.mp hdirect
    obtain ⟨model, -, horigin, hmodel⟩ := directRef_cases hget hnext
    obtain ⟨cls, other, hcls, hother, hsame⟩ :=
      h next.rewrite ((mem_references_generate pydantic metadata generator
        lower).mpr (Or.inr ⟨name, schema, hget, next, mem_references_of_directRef hnext, rfl⟩))
    rw [hrest.unique hother, hsame, ← hcls, Reference.origin_rewrite, hmodel, owner, hget]
    exact horigin

theorem ResolvesReferences.namesAgree (h : ResolvesReferences
      (generator.generate pydantic lower (some metadata))) :
    NamesAgree pydantic lower metadata where
  mentioned := by
    intro path method route hroute mention hmention
    obtain ⟨cls, schema, hcls, hleads, hschema⟩ := h (mentionRef mention)
      ((mem_references_generate pydantic metadata generator lower).mpr
        (Or.inl ⟨path, method, route, hroute, mention, hmention, rfl⟩))
    rw [owner_of_leadsTo h rfl hleads, hschema, ← hcls]
    rfl
  nested := by
    rintro ⟨name, schema⟩ hentry ref href target hnames
    have hget := Dict.get?_eq_some_iff.mpr hentry
    obtain ⟨other, hother, hplain, -⟩ :=
      closed_nameTable pydantic metadata name schema hget ref href
    rw [Reference.names_unique hother hnames] at hplain
    obtain ⟨cls, result, hcls, hleads, hresult⟩ := h ref.rewrite
      ((mem_references_generate pydantic metadata generator lower).mpr
        (Or.inr ⟨name, schema, hget, ref, href, rfl⟩))
    rw [owner_of_leadsTo h (Reference.text_rewrite_of_names hnames hplain)
      hleads, hresult, ← hcls, Reference.origin_rewrite]
  progress := by
    rintro ⟨name, schema⟩ hentry ref hdirect hnames
    have hget := Dict.get?_eq_some_iff.mpr hentry
    have href := mem_references_of_directRef hdirect
    obtain ⟨other, hother, hplain, -⟩ :=
      closed_nameTable pydantic metadata name schema hget ref href
    rw [Reference.names_unique hother hnames] at hplain
    obtain ⟨-, result, -, hleads, -⟩ := h ref.rewrite
      ((mem_references_generate pydantic metadata generator lower).mpr
        (Or.inr ⟨name, schema, hget, ref, href, rfl⟩))
    have htext := Reference.text_rewrite_of_names hnames hplain
    have hcomponent : component (generator.generate pydantic lower (some metadata)) name =
        some (rewriteRefs schema) := by
      rw [component_generate, hget]
      rfl
    refine not_leadsTo_of_self hcomponent ?_ htext htext hleads
    rw [directRef_rewriteRefs, hdirect, Option.map_some]

end Document

/-- The references are right exactly when every name belongs to the class which
is meant by it, and no model refers to itself under its own name. -/
theorem resolvesReferences_iff (pydantic : Pydantic κ)
    (generator : OpenAPIGenerator) (lower : List Char → List Char)
    (metadata : List (RouteMetadata κ)) :
    ResolvesReferences (generator.generate pydantic lower (some metadata)) ↔
      NamesAgree pydantic lower metadata :=
  ⟨ResolvesReferences.namesAgree, NamesAgree.resolves⟩

/-! ## A model which refers to itself, and two models of one name -/

def returning (path : String) (model : κ) : RouteMetadata κ where
  path := path.toList
  httpMethod := "GET".toList
  statusCode := 200
  handlerName := "read".toList
  parameters := []
  requestBodyModel := none
  returnType := some (.model model)
  tag := []
  summary := []
  description := []
  deprecated := false
  plain := by simp

def nodeRef : JsonSchema Unit :=
  .object [(refKey, .text (defsPath ++ "Node".toList) (some (.model ())))] (some (.model ()))

/-- `class Node(BaseModel): next: Node` -/
def nodeSchema : JsonSchema Unit :=
  .object [("title".toList, str "Node"), ("type".toList, str "object"),
    ("properties".toList, .object [("next".toList, nodeRef)] none)]
    (some (.model ()))

theorem references_nodeRef : nodeRef.references =
    [⟨defsPath ++ "Node".toList, some (.model ())⟩] := by
  simp [nodeRef, references, entryReferences, asReference]

theorem references_nodeSchema : nodeSchema.references =
    [⟨defsPath ++ "Node".toList, some (.model ())⟩] := by
  simp [nodeSchema, references, entryReferences, str, asReference, refKey_eq, nodeRef]

def selfReferring : Pydantic Unit where
  className _ := "Node".toList
  schema _ := nodeRef
  defs _ := Dict.empty.set "Node".toList nodeSchema
  schema_object _ := ⟨_, rfl⟩
  defs_object := by
    intro model entry hentry
    rw [Dict.items_set_of_notMem (by simp)] at hentry
    rw [mem_singleton.mp hentry]
    exact ⟨_, (), rfl⟩
  plain := by
    intro model name hname
    rw [Dict.keys_set_of_notMem (by simp)] at hname
    rw [mem_singleton.mp hname]
    decide
  closed := by
    intro model value hvalue ref href
    have hvalues : value ∈ [nodeRef, nodeSchema] := hvalue
    have hsame : ref = ⟨defsPath ++ "Node".toList, some (.model ())⟩ := by
      rcases mem_cons.mp hvalues with rfl | hschema
      · rw [references_nodeRef] at href
        exact mem_singleton.mp href
      · rw [mem_singleton.mp hschema, references_nodeSchema] at href
        exact mem_singleton.mp href
    rw [hsame]
    exact ⟨"Node".toList, nodeSchema, rfl, rfl, rfl⟩
  schema_directRef := by
    intro model ref href
    have hmem := mem_references_of_directRef href
    rw [references_nodeRef, mem_singleton] at hmem
    rw [hmem]
  defs_directRef := by
    intro model value hvalue
    have hvalues : value ∈ [nodeSchema] := hvalue
    rw [mem_singleton.mp hvalues]
    rfl

/-- Two classes with the name `Item`. -/
def namesakes : Pydantic Bool where
  className _ := "Item".toList
  schema model := .object [("title".toList, str "Item"),
    ("type".toList, str "object")] (some (.model model))
  defs _ := .empty
  schema_object _ := ⟨_, rfl⟩
  defs_object := by
    intro model entry hentry
    cases hentry
  plain := by
    intro model name hname
    cases hname
  closed := by
    intro model value hvalue ref href
    have hschema := mem_singleton.mp hvalue
    rw [hschema] at href
    simp [references, entryReferences, str, refKey_eq] at href
  schema_directRef := by
    intro model ref href
    simp [directRef, JsonSchema.get?, refKey_eq] at href
  defs_directRef := by
    intro model value hvalue
    cases hvalue

/-- The schema `Node` of the document is `{"$ref": "#/components/schemas/Node"}`;
both routes refer to the schema of the first `Item`. -/
theorem not_resolvesReferences_node :
    ¬ ResolvesReferences ((⟨[], [], []⟩ : OpenAPIGenerator).generate
        selfReferring id (some [returning "/nodes" ()])) ∧
      ¬ ResolvesReferences ((⟨[], [], []⟩ : OpenAPIGenerator).generate
        namesakes id (some [returning "/a" true, returning "/b" false])) := by
  constructor
  · intro h
    have hget : (nameTable selfReferring [returning "/nodes" ()]).get?
        "Node".toList = some nodeRef := rfl
    exact h.namesAgree.progress _ (Dict.get?_eq_some_iff.mp hget) _ rfl (Or.inl rfl)
  · intro h
    have howner := h.namesAgree.mentioned "/b".toList "GET".toList
      (returning "/b" false) rfl ("Item".toList, .model false)
      mem_cons_self
    have hfirst : owner (nameTable namesakes
        [returning "/a" true, returning "/b" false]) "Item".toList =
        some (.model true) := rfl
    rw [hfirst] at howner
    simp at howner

end PyFly.Web
