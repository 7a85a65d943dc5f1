import PyFly.OpenAPIGenerator

/-!
# The names of an OpenAPI document

The names of the schemas are given away once and for all: a name belongs to the
schema that first asks for it.  The generator hoists definitions before it
writes the schema they belong to, and comes to the same table.
-/

namespace PyFly.Web

open Library JsonSchema List

variable {κ : Type}

/-! ## The table of names -/

structure SchemaGroup (κ : Type) where
  name : List Char
  schema : JsonSchema κ
  definitions : Schemas κ

namespace SchemaGroup

def validationError : SchemaGroup κ :=
  ⟨validationErrorName, validationErrorSchema, .empty⟩

def httpValidationError : SchemaGroup κ :=
  ⟨httpValidationErrorName, httpValidationErrorSchema, .empty⟩

def offer (group : SchemaGroup κ) (name : List Char) : Option (JsonSchema κ) :=
  if name = group.name then some group.schema
  else group.definitions.get? name

end SchemaGroup

def Pydantic.group (pydantic : Pydantic κ) (model : κ) : SchemaGroup κ :=
  ⟨pydantic.className model, pydantic.schema model, pydantic.defs model⟩

def allot (table : Schemas κ) (group : SchemaGroup κ) : Schemas κ :=
  if table.keys.contains group.name then table
  else group.definitions.items.foldl
    (fun table entry => table.setDefault entry.1 entry.2)
    (table.set group.name group.schema)

namespace RouteMetadata

variable (pydantic : Pydantic κ) (route : RouteMetadata κ)

def responseModel : Option κ :=
  if route.statusCode = 204 then none
  else
    match route.returnType with
    | some (.model cls) | some (.listOf cls) => some cls
    | _ => none

def groups : List (SchemaGroup κ) :=
  (route.responseModel.toList.map pydantic.group) ++ match route.requestBodyModel with
    | none => []
    | some model => [.validationError, .httpValidationError, pydantic.group model]

def mentions : List (List Char × SchemaClass κ) :=
  let response := route.responseModel.toList.map fun cls =>
    (pydantic.className cls, SchemaClass.model cls)
  match route.requestBodyModel with
  | none => response
  | some model =>
    (if route.statusCode = 422 then [] else response) ++
      [(httpValidationErrorName, .httpValidationError),
        (pydantic.className model, .model model)]

end RouteMetadata

def nameTable (pydantic : Pydantic κ) (metadata : List (RouteMetadata κ)) : Schemas κ :=
  (metadata.flatMap fun route => route.groups pydantic).foldl allot .empty

def lastRoute (lower : List Char → List Char)
    (metadata : List (RouteMetadata κ)) (path method : List Char) :
    Option (RouteMetadata κ) :=
  (metadata.filter fun route =>
    route.path = path ∧ lower route.httpMethod = method).getLast?

theorem allot_of_mem {table : Schemas κ} {group : SchemaGroup κ}
    (h : group.name ∈ table.keys) : allot table group = table :=
  if_pos (contains_iff_mem.mpr h)

theorem get?_allot {table : Schemas κ} {group : SchemaGroup κ}
    (h : group.name ∉ table.keys) (name : List Char) :
    (allot table group).get? name = (table.get? name).or (group.offer name) := by
  have habsent := Dict.get?_eq_none_iff.mpr h
  rw [allot, if_neg (by simpa using h), Dict.get?_foldl_setDefault, SchemaGroup.offer]
  by_cases hname : name = group.name
  · rw [hname, Dict.get?_set_self, habsent, if_pos rfl]
    rfl
  · rw [Dict.get?_set_of_ne hname, if_neg hname]
    rfl

/-! ## The generator's schemas -/

theorem references_validationErrorSchema :
    (validationErrorSchema : JsonSchema κ).references = [] := by
  simp [validationErrorSchema, record, references, entryReferences,
    itemReferences, str, refKey_eq]

theorem references_httpValidationErrorSchema :
    (httpValidationErrorSchema : JsonSchema κ).references =
      [⟨componentsPath ++ validationErrorName, some .validationError⟩] := by
  simp [httpValidationErrorSchema, record, componentRef, references,
    entryReferences, asReference, str, refKey_eq]

theorem rewriteRefs_validationErrorSchema : rewriteRefs (validationErrorSchema : JsonSchema κ) =
      validationErrorSchema := by
  apply rewriteRefs_of_forall
  simp [references_validationErrorSchema]

theorem rewriteRefs_httpValidationErrorSchema :
    rewriteRefs (httpValidationErrorSchema : JsonSchema κ) =
      httpValidationErrorSchema := by
  apply rewriteRefs_of_forall
  intro ref href
  rw [references_httpValidationErrorSchema, mem_singleton] at href
  rw [href]
  exact Reference.not_defsPath_isPrefix_components _

theorem get?_hoistDefs (defs schemas : Schemas κ) (name : List Char) :
    (hoistDefs defs schemas).get? name =
      (schemas.get? name).or ((defs.get? name).map rewriteRefs) := by
  have hmapped := Dict.get?_foldl_setDefault
    (defs.mapValues fun _ => rewriteRefs).items schemas name
  rw [Dict.mapValues, foldl_map] at hmapped
  rw [← Dict.get?_mapValues fun _ => rewriteRefs]
  exact hmapped

def Represents (schemas table : Schemas κ) : Prop :=
  ∀ name, schemas.get? name = (table.get? name).map rewriteRefs

namespace Represents

variable {schemas table : Schemas κ}

theorem mem_keys_iff (h : Represents schemas table) {name : List Char} :
    name ∈ schemas.keys ↔ name ∈ table.keys := by
  rw [← not_iff_not, ← Dict.get?_eq_none_iff, ← Dict.get?_eq_none_iff, h name,
    Option.map_eq_none_iff]

theorem allot (h : Represents schemas table) (group : SchemaGroup κ) :
    Represents (if group.name ∈ schemas.keys then schemas
        else (hoistDefs group.definitions schemas).set group.name (rewriteRefs group.schema))
      (allot table group) := by
  intro name
  by_cases hkey : group.name ∈ table.keys
  · rw [if_pos (h.mem_keys_iff.mpr hkey), allot_of_mem hkey, h name]
  · rw [if_neg fun hmem => hkey (h.mem_keys_iff.mp hmem), get?_allot hkey, SchemaGroup.offer]
    by_cases hname : name = group.name
    · rw [hname, Dict.get?_set_self, Dict.get?_eq_none_iff.mpr hkey, if_pos rfl]
      rfl
    · rw [Dict.get?_set_of_ne hname, if_neg hname, get?_hoistDefs, h name, Option.map_or]

variable (pydantic : Pydantic κ)

theorem registerModel (h : Represents schemas table) (model : κ) :
    Represents (registerModel pydantic model schemas).2
      (PyFly.Web.allot table (pydantic.group model)) := by
  have hallot := h.allot (pydantic.group model)
  simp only [PyFly.Web.registerModel]
  split
  · next hmem =>
      rwa [if_pos (show (pydantic.group model).name ∈ schemas.keys from
        contains_iff_mem.mp hmem)] at hallot
  · next hmem =>
      rwa [if_neg (show (pydantic.group model).name ∉ schemas.keys from
        fun hkey => hmem (contains_iff_mem.mpr hkey))] at hallot

omit pydantic in
theorem setDefault (h : Represents schemas table) (name : List Char)
    {schema : JsonSchema κ} (hrewritten : rewriteRefs schema = schema) :
    Represents (schemas.setDefault name schema)
      (PyFly.Web.allot table ⟨name, schema, .empty⟩) := by
  have hallot := h.allot ⟨name, schema, .empty⟩
  rw [hrewritten] at hallot
  unfold Dict.setDefault
  split
  · next hmem => rwa [if_pos hmem] at hallot
  · next hmem => rwa [if_neg hmem] at hallot

omit pydantic in
theorem ensureValidationSchemas (h : Represents schemas table) :
    Represents (ensureValidationSchemas schemas)
      (PyFly.Web.allot (PyFly.Web.allot table .validationError) .httpValidationError) :=
  (h.setDefault _ rewriteRefs_validationErrorSchema).setDefault _
    rewriteRefs_httpValidationErrorSchema

theorem successResponse (h : Represents schemas table) (route : RouteMetadata κ) :
    Represents (successResponse pydantic route schemas).2
      ((route.responseModel.toList.map pydantic.group).foldl PyFly.Web.allot table) := by
  unfold PyFly.Web.successResponse RouteMetadata.responseModel
  split
  · exact h
  · cases route.returnType with
    | none => exact h
    | some type =>
      cases type with
      | model cls => exact h.registerModel pydantic cls
      | listOf cls => exact h.registerModel pydantic cls
      | other => exact h

theorem buildOperation (h : Represents schemas table) (route : RouteMetadata κ) :
    Represents (buildOperation pydantic route schemas).2
      ((route.groups pydantic).foldl PyFly.Web.allot table) := by
  have hresponse := h.successResponse pydantic route
  unfold PyFly.Web.buildOperation buildResponses RouteMetadata.groups
  rw [foldl_append]
  cases route.requestBodyModel with
  | none => exact hresponse
  | some model =>
    dsimp only
    rw [foldl_cons, foldl_cons, foldl_cons, foldl_nil]
    exact hresponse.ensureValidationSchemas.registerModel pydantic model

end Represents

/-! ## Operations -/

variable (pydantic : Pydantic κ)

def operation (route : RouteMetadata κ) : JsonSchema κ :=
  (buildOperation pydantic route .empty).1

theorem registerModel_fst (model : κ) (schemas : Schemas κ) :
    (registerModel pydantic model schemas).1 =
      componentRef (pydantic.className model) (.model model) := by
  simp only [registerModel]
  split <;> rfl

theorem successResponse_fst (route : RouteMetadata κ) (schemas : Schemas κ) :
    (successResponse pydantic route schemas).1 = (successResponse pydantic route .empty).1 := by
  unfold successResponse
  split
  · rfl
  · split <;> simp [registerModel_fst]

theorem buildResponses_fst (route : RouteMetadata κ) (schemas : Schemas κ) :
    (buildResponses pydantic route schemas).1 = (buildResponses pydantic route .empty).1 := by
  have hresponse := successResponse_fst pydantic route schemas
  unfold buildResponses
  dsimp only
  rw [hresponse]
  cases route.requestBodyModel <;> rfl

theorem buildOperation_fst (route : RouteMetadata κ) (schemas : Schemas κ) :
    (buildOperation pydantic route schemas).1 = operation pydantic route := by
  have hresponses := buildResponses_fst pydantic route schemas
  unfold operation buildOperation
  dsimp only
  rw [hresponses]
  cases route.requestBodyModel with
  | none => rfl
  | some model =>
    dsimp only
    rw [registerModel_fst, registerModel_fst]

/-! ## References of an operation -/

def mentionRef (mention : List Char × SchemaClass κ) : Reference κ :=
  ⟨componentsPath ++ mention.1, some mention.2⟩

theorem references_componentRef (name : List Char) (cls : SchemaClass κ) :
    (componentRef name cls).references = [mentionRef (name, cls)] := by
  simp [componentRef, references, entryReferences, asReference, mentionRef]

theorem references_described (description : String) :
    (described description : JsonSchema κ).references = [] := by
  simp [described, record, references, entryReferences, str, refKey_eq]

theorem references_jsonContent (schema : JsonSchema κ) :
    (jsonContent schema).references = schema.references := by
  simp [jsonContent, record, references, entryReferences, refKey_eq]

theorem references_describedContent (description : String) (schema : JsonSchema κ) :
    (describedContent description schema).references = schema.references := by
  simp [describedContent, record, references, entryReferences, str, refKey_eq,
    references_jsonContent]

theorem references_successResponse (route : RouteMetadata κ) (schemas : Schemas κ) :
    (successResponse pydantic route schemas).1.references =
      route.responseModel.toList.map fun cls =>
        mentionRef (pydantic.className cls, .model cls) := by
  unfold successResponse RouteMetadata.responseModel
  split
  · exact references_described _
  · cases route.returnType with
    | none => exact references_described _
    | some type =>
      cases type with
      | other => exact references_described _
      | model cls =>
        dsimp only
        rw [references_describedContent, registerModel_fst, references_componentRef]
        rfl
      | listOf cls =>
        dsimp only
        rw [references_describedContent, registerModel_fst]
        simp [record, references, entryReferences, str, refKey_eq, references_componentRef]

theorem asReference_successResponse (route : RouteMetadata κ) (schemas : Schemas κ) :
    (successResponse pydantic route schemas).1.asReference = none := by
  unfold successResponse
  split
  · rfl
  · split <;> rfl

theorem renderInt_eq_422_iff (status : ℤ) : renderInt status = "422".toList ↔ status = 422 := by
  have hrender : renderInt 422 = "422".toList := by
    show renderNat 422 = _
    norm_num [renderNat, decimalDigits]
    decide
  rw [← hrender]
  exact renderInt_injective.eq_iff

theorem entryReferences_append (front back : List (List Char × JsonSchema κ)) :
    entryReferences (front ++ back) = entryReferences front ++ entryReferences back := by
  simp [entryReferences_eq_flatMap]

theorem references_buildResponses (route : RouteMetadata κ) (schemas : Schemas κ) :
    entryReferences (buildResponses pydantic route schemas).1.items =
      match route.requestBodyModel with
      | none => route.responseModel.toList.map fun cls =>
        mentionRef (pydantic.className cls, .model cls)
      | some _ =>
        (if route.statusCode = 422 then []
          else route.responseModel.toList.map fun cls =>
            mentionRef (pydantic.className cls, .model cls)) ++
          [mentionRef (httpValidationErrorName, .httpValidationError)] := by
  have hresponse := references_successResponse pydantic route schemas
  have hasReference := asReference_successResponse pydantic route schemas
  unfold buildResponses
  dsimp only
  generalize successResponse pydantic route schemas = built at *
  have hitems : (Dict.empty.set (renderInt route.statusCode) built.1).items =
      [(renderInt route.statusCode, built.1)] := rfl
  have hfirst : entryReferences [(renderInt route.statusCode, built.1)] =
      route.responseModel.toList.map fun cls =>
        mentionRef (pydantic.className cls, .model cls) := by
    simpa [entryReferences, hasReference] using hresponse
  cases route.requestBodyModel with
  | none =>
    rw [← hfirst]
    rfl
  | some model =>
    have hsecond : entryReferences [("422".toList,
        describedContent "Validation Error" (componentRef
          httpValidationErrorName SchemaClass.httpValidationError : JsonSchema κ))] =
        [mentionRef (httpValidationErrorName, .httpValidationError)] := by
      simp [entryReferences, references_describedContent, references_componentRef, refKey_eq]
    by_cases hstatus : route.statusCode = 422
    · have hkey := (renderInt_eq_422_iff _).mpr hstatus
      rw [if_pos hstatus, nil_append, ← hsecond]
      simp [Dict.set, Dict.empty, hkey]
    · have habsent : "422".toList ∉
          (Dict.empty.set (renderInt route.statusCode) built.1).keys := by
        rw [Dict.keys, hitems, map_singleton, mem_singleton]
        exact fun heq => hstatus ((renderInt_eq_422_iff _).mp heq.symm)
      dsimp only
      rw [if_neg hstatus, Dict.items_set_of_notMem habsent, hitems,
        entryReferences_append, hfirst, hsecond]

theorem entryReferences_unlessEmpty {α : Type} {key : String}
    (hkey : key.toList ≠ refKey) (values : List α) {value : JsonSchema κ}
    (hvalue : value.references = []) :
    entryReferences (unlessEmpty key values value) = [] := by
  unfold unlessEmpty
  split
  · rfl
  · simp [entryReferences, hkey, hvalue]

theorem references_parameters (route : RouteMetadata κ) :
    (array route.parameters).references = [] := by
  rw [references_array, flatMap_eq_nil_iff]
  exact route.plain

theorem entryReferences_operationEntries (route : RouteMetadata κ)
    (responses : Dict (List Char) (JsonSchema κ)) :
    entryReferences (operationEntries route responses) = entryReferences responses.items := by
  have hfront : entryReferences [("operationId".toList, .text route.handlerName none),
        ("responses".toList, .object responses.items none)] =
      entryReferences responses.items := by
    simp [entryReferences, references, refKey_eq]
  have htags : entryReferences (unlessEmpty "tags" route.tag
      (.array [.text route.tag none] : JsonSchema κ)) = [] :=
    entryReferences_unlessEmpty (by decide) _ (by
      simp [references, itemReferences])
  have hsummary : entryReferences (unlessEmpty "summary" route.summary
      (.text route.summary none : JsonSchema κ)) = [] :=
    entryReferences_unlessEmpty (by decide) _ (by simp [references])
  have hdescription : entryReferences (unlessEmpty "description"
      route.description (.text route.description none : JsonSchema κ)) = [] :=
    entryReferences_unlessEmpty (by decide) _ (by simp [references])
  have hdeprecated : entryReferences (if route.deprecated then
      [("deprecated".toList, (.leaf "true".toList : JsonSchema κ))]
        else []) = [] := by
    split
    · simp [entryReferences, references, refKey_eq]
    · rfl
  have hparameters : entryReferences (unlessEmpty "parameters"
      route.parameters (.array route.parameters)) = [] :=
    entryReferences_unlessEmpty (by decide) _ (references_parameters route)
  rw [operationEntries, entryReferences_append, entryReferences_append,
    entryReferences_append, entryReferences_append, entryReferences_append,
    hfront, htags, hsummary, hdescription, hdeprecated, hparameters]
  simp

theorem references_operation (route : RouteMetadata κ) :
    (operation pydantic route).references = (route.mentions pydantic).map mentionRef := by
  have hresponses := references_buildResponses pydantic route .empty
  unfold operation buildOperation RouteMetadata.mentions
  dsimp only
  cases hbody : route.requestBodyModel with
  | none =>
    rw [hbody] at hresponses
    show entryReferences (operationEntries route _) = _
    rw [entryReferences_operationEntries, hresponses, map_map]
    rfl
  | some model =>
    rw [hbody] at hresponses
    show entryReferences (operationEntries route _ ++ _) = _
    rw [entryReferences_append, entryReferences_operationEntries, hresponses,
      registerModel_fst, map_append, append_assoc]
    have hcontent : entryReferences [("requestBody".toList, record
        [("required", .leaf "true".toList),
          ("content", jsonContent (componentRef (pydantic.className model) (.model model)))])] =
        [mentionRef (pydantic.className model, .model model)] := by
      simp [record, entryReferences, references, references_jsonContent,
        references_componentRef, refKey_eq]
    rw [hcontent]
    split
    · rfl
    · rw [map_map]
      rfl

theorem asReference_operation (route : RouteMetadata κ) :
    (operation pydantic route).asReference = none := by
  unfold operation buildOperation
  dsimp only
  split <;> rfl

/-! ## The document -/

def Paths.lookup (paths : Paths κ) (path method : List Char) : Option (JsonSchema κ) :=
  (paths.get? path).bind fun methods => methods.get? method

theorem lookup_put (paths : Paths κ) (path method path' method' : List Char)
    (operation : JsonSchema κ) :
    (paths.put path method operation).lookup path' method' =
      if path = path' ∧ method = method' then some operation
      else paths.lookup path' method' := by
  unfold Paths.put Paths.lookup
  by_cases hpath : path = path'
  · subst hpath
    rw [Dict.get?_set_self, Option.bind_some]
    by_cases hmethod : method = method'
    · subst hmethod
      rw [Dict.get?_set_self, if_pos ⟨rfl, rfl⟩]
    · rw [Dict.get?_set_of_ne (Ne.symm hmethod), if_neg fun hboth => hmethod hboth.2]
      cases paths.get? path <;> rfl
  · rw [Dict.get?_set_of_ne (Ne.symm hpath), if_neg fun hboth => hpath hboth.1]

variable (lower : List Char → List Char)

theorem buildPaths_concat (metadata : List (RouteMetadata κ)) (route : RouteMetadata κ) :
    buildPaths pydantic lower (metadata ++ [route]) =
      ((buildPaths pydantic lower metadata).1.put route.path
          (lower route.httpMethod) (operation pydantic route),
        (buildOperation pydantic route (buildPaths pydantic lower metadata).2).2) := by
  rw [← buildOperation_fst pydantic route (buildPaths pydantic lower metadata).2]
  simp [buildPaths]

theorem represents_buildPaths (metadata : List (RouteMetadata κ)) :
    Represents (buildPaths pydantic lower metadata).2 (nameTable pydantic metadata) := by
  induction metadata using List.reverseRecOn with
  | nil =>
    intro name
    rfl
  | append_singleton metadata route ih =>
    rw [buildPaths_concat, nameTable, flatMap_append, foldl_append, flatMap_singleton]
    exact ih.buildOperation pydantic route

theorem lookup_buildPaths (metadata : List (RouteMetadata κ)) (path method : List Char) :
    (buildPaths pydantic lower metadata).1.lookup path method =
      (lastRoute lower metadata path method).map (operation pydantic) := by
  induction metadata using List.reverseRecOn with
  | nil => rfl
  | append_singleton metadata route ih =>
    rw [buildPaths_concat, lookup_put, lastRoute, filter_append]
    by_cases hlast : route.path = path ∧ lower route.httpMethod = method
    · simp [hlast]
    · rw [if_neg hlast, ih, lastRoute, filter_cons_of_neg (by simpa using hlast), filter_nil,
        append_nil]

namespace OpenAPIGenerator

variable (generator : OpenAPIGenerator)

theorem references_spec (paths : Paths κ) (schemas : Schemas κ) (tags : List (List Char)) :
    (generator.spec paths schemas tags).references = (pathsJson paths).references ++
        (object schemas.items none).references := by
  have hinfo : (generator.buildInfo : JsonSchema κ).references = [] := by
    have hdescription : entryReferences (unlessEmpty "description" generator.description
        (.text generator.description none : JsonSchema κ)) = [] :=
      entryReferences_unlessEmpty (by decide) _ (by simp [references])
    show entryReferences _ = _
    rw [entryReferences_append, hdescription]
    simp [entryReferences, references, refKey_eq]
  have htags : entryReferences (unlessEmpty "tags" tags
      (.array (tags.map fun tag => record [("name", .text tag none)]) :
        JsonSchema κ)) = [] := by
    apply entryReferences_unlessEmpty (by decide)
    rw [references_array, flatMap_map, flatMap_eq_nil_iff]
    intro tag _
    simp [record, references, entryReferences, refKey_eq]
  have hcomponents : entryReferences (unlessEmpty "components" schemas.items
      (record [("schemas", .object schemas.items none)])) =
      entryReferences schemas.items := by
    unfold unlessEmpty
    split
    · next hempty => simp [List.isEmpty_iff.mp hempty, entryReferences]
    · simp [record, entryReferences, references, refKey_eq]
  show entryReferences _ = _ ++ entryReferences _
  rw [entryReferences_append, entryReferences_append, htags, hcomponents]
  simp [entryReferences, references, hinfo, str, refKey_eq]

theorem find?_skip {key other : List Char} (hne : other ≠ key)
    (value : JsonSchema κ) (entries : List (List Char × JsonSchema κ)) :
    ((other, value) :: entries).find? (fun entry => entry.1 = key) =
      entries.find? fun entry => entry.1 = key :=
  List.find?_cons_of_neg fun heq => hne (of_decide_eq_true heq)

theorem find?_here (key : List Char) (value : JsonSchema κ)
    (entries : List (List Char × JsonSchema κ)) :
    ((key, value) :: entries).find? (fun entry => entry.1 = key) = some (key, value) :=
  List.find?_cons_of_pos (decide_eq_true rfl)

theorem component_spec (paths : Paths κ) (schemas : Schemas κ)
    (tags : List (List Char)) (name : List Char) :
    component (generator.spec paths schemas tags) name = schemas.get? name := by
  have htags : ∀ value : JsonSchema κ, (unlessEmpty "tags" tags value).find?
      (fun entry => entry.1 = "components".toList) = none := by
    intro value
    unfold unlessEmpty
    split
    · rfl
    · exact find?_skip (by decide) _ _
  have hcomponents : (generator.spec paths schemas tags).get? "components".toList =
      ((unlessEmpty "components" schemas.items
        (record [("schemas", .object schemas.items none)])).find?
          fun entry => entry.1 = "components".toList).map Prod.snd := by
    rw [spec, JsonSchema.get?, List.find?_append, List.find?_append, htags,
      find?_skip (by decide), find?_skip (by decide), find?_skip (by decide)]
    rfl
  have hschemas : (record [("schemas", .object schemas.items none)]).get?
      "schemas".toList = some (.object schemas.items none) := by
    rw [record, map_singleton, JsonSchema.get?, find?_here]
    rfl
  unfold component
  rw [hcomponents]
  unfold unlessEmpty
  split
  · next hempty =>
      rw [Dict.get?, List.isEmpty_iff.mp hempty]
      rfl
  · rw [find?_here, Option.map_some, Option.bind_some, hschemas]
    rfl

end OpenAPIGenerator

end PyFly.Web
