import PyFly.OpenAPISchemas
import PyFly.Library.IntegerText

/-!
# The OpenAPI generator

The models of a route are registered under their class names, and the
definitions of their schemas are hoisted into the same name space: a definition
is written where its name is free, and the schema of the model over whatever its
name holds by then.
-/

namespace PyFly.Web

open Library JsonSchema

variable {κ : Type}

/-- `model_json_schema` of the models, with the `$defs` apart from the rest.
Every schema is an object generated for a class, and the names of the
definitions are of letters, digits, dots and underscores.  A reference is into
the definitions of its model; the schema of a model is a reference where the
model refers to itself, and no definition is one. -/
structure Pydantic (κ : Type) where
  className : κ → List Char
  schema : κ → JsonSchema κ
  defs : κ → Dict (List Char) (JsonSchema κ)
  schema_object : ∀ model, ∃ entries, schema model = .object entries (some (.model model))
  defs_object : ∀ model, ∀ entry ∈ (defs model).items,
    ∃ entries cls, entry.2 = .object entries (some (.model cls))
  plain : ∀ model, ∀ name ∈ (defs model).keys, '#' ∉ name
  closed : ∀ model, ∀ value ∈ schema model :: (defs model).values,
    ∀ ref ∈ value.references, ∃ name target,
      ref.text = defsPath ++ name ∧ (defs model).get? name = some target ∧
        ref.origin = target.origin
  schema_directRef : ∀ model ref, (schema model).directRef = some ref →
    ref.origin = some (.model model)
  defs_directRef : ∀ model, ∀ value ∈ (defs model).values, value.directRef = none

inductive ReturnType (κ : Type)
  | model (cls : κ)
  | listOf (cls : κ)
  | other

structure RouteMetadata (κ : Type) where
  path : List Char
  httpMethod : List Char
  statusCode : ℤ
  handlerName : List Char
  parameters : List (JsonSchema κ)
  requestBodyModel : Option κ
  returnType : Option (ReturnType κ)
  tag : List Char
  summary : List Char
  description : List Char
  deprecated : Bool
  plain : ∀ parameter ∈ parameters, parameter.references = []

/-! ## Texts of the generator -/

def str (literal : String) : JsonSchema κ := .text literal.toList none

def record (entries : List (String × JsonSchema κ)) : JsonSchema κ :=
  .object (entries.map fun entry => (entry.1.toList, entry.2)) none

def validationErrorName : List Char := "ValidationError".toList

def httpValidationErrorName : List Char := "HTTPValidationError".toList

def componentRef (name : List Char) (cls : SchemaClass κ) : JsonSchema κ :=
  .object [(refKey, .text (componentsPath ++ name) (some cls))] none

def validationErrorSchema : JsonSchema κ :=
  .object [("title".toList, str "ValidationError"), ("type".toList, str "object"),
      ("properties".toList, record [("detail", record [("title", str "Detail"),
            ("type", str "array"),
            ("items", record [("type", str "object"), ("properties", record
                  [("loc", record [("title", str "Location"), ("type", str "array"),
                      ("items", record [("anyOf", .array [record [("type", str "string")],
                            record [("type", str "integer")]])])]),
                    ("msg", record [("title", str "Message"), ("type", str "string")]),
                    ("type", record [("title", str "Error Type"), ("type", str "string")])]),
                ("required", .array [str "loc", str "msg", str "type"])])])]),
      ("required".toList, .array [str "detail"])]
    (some .validationError)

def httpValidationErrorSchema : JsonSchema κ :=
  .object [("title".toList, str "HTTPValidationError"), ("type".toList, str "object"),
      ("properties".toList, record [("detail", record [("title", str "Detail"),
            ("type", str "array"),
            ("items", componentRef validationErrorName .validationError)])])]
    (some .httpValidationError)

/-! ## Registration -/

/-- `self._schemas` -/
abbrev Schemas (κ : Type) := Dict (List Char) (JsonSchema κ)

variable (pydantic : Pydantic κ)

/-- The loop over `$defs` in `_register_model`. -/
def hoistDefs (defs : Dict (List Char) (JsonSchema κ)) (schemas : Schemas κ) : Schemas κ :=
  defs.items.foldl
    (fun schemas entry => schemas.setDefault entry.1 (rewriteRefs entry.2))
    schemas

def registerModel (model : κ) (schemas : Schemas κ) : JsonSchema κ × Schemas κ :=
  let name := pydantic.className model
  let ref := componentRef name (.model model)
  if schemas.keys.contains name then (ref, schemas)
  else
    let schemas := hoistDefs (pydantic.defs model) schemas
    (ref, schemas.set name (rewriteRefs (pydantic.schema model)))

def ensureValidationSchemas (schemas : Schemas κ) : Schemas κ :=
  (schemas.setDefault validationErrorName validationErrorSchema).setDefault
    httpValidationErrorName httpValidationErrorSchema

/-! ## Operations -/

def described (description : String) : JsonSchema κ :=
  record [("description", str description)]

def jsonContent (schema : JsonSchema κ) : JsonSchema κ :=
  record [("application/json", record [("schema", schema)])]

def describedContent (description : String) (schema : JsonSchema κ) : JsonSchema κ :=
  record [("description", str description), ("content", jsonContent schema)]

def successResponse (route : RouteMetadata κ) (schemas : Schemas κ) :
    JsonSchema κ × Schemas κ :=
  if route.statusCode = 204 then (described "No Content", schemas)
  else
    match route.returnType with
    | some (.model cls) =>
      let (ref, schemas) := registerModel pydantic cls schemas
      (describedContent "Successful response" ref, schemas)
    | some (.listOf cls) =>
      let (ref, schemas) := registerModel pydantic cls schemas
      (describedContent "Successful response"
        (record [("type", str "array"), ("items", ref)]), schemas)
    | _ => (described "Successful response", schemas)

def buildResponses (route : RouteMetadata κ) (schemas : Schemas κ) :
    Dict (List Char) (JsonSchema κ) × Schemas κ :=
  let (response, schemas) := successResponse pydantic route schemas
  let responses := Dict.empty.set (renderInt route.statusCode) response
  match route.requestBodyModel with
  | none => (responses, schemas)
  | some _ =>
    (responses.set "422".toList (describedContent "Validation Error"
        (componentRef httpValidationErrorName .httpValidationError)),
      ensureValidationSchemas schemas)

def unlessEmpty (key : String) {α : Type} (values : List α)
    (value : JsonSchema κ) : List (List Char × JsonSchema κ) :=
  if values.isEmpty then [] else [(key.toList, value)]

def operationEntries (route : RouteMetadata κ) (responses : Dict (List Char) (JsonSchema κ)) :
    List (List Char × JsonSchema κ) :=
  [("operationId".toList, .text route.handlerName none),
    ("responses".toList, .object responses.items none)] ++
    unlessEmpty "tags" route.tag (.array [.text route.tag none]) ++
    unlessEmpty "summary" route.summary (.text route.summary none) ++
    unlessEmpty "description" route.description (.text route.description none) ++
    (if route.deprecated then
      [("deprecated".toList, .leaf "true".toList)] else []) ++
    unlessEmpty "parameters" route.parameters (.array route.parameters)

/-- An iteration of `_build_paths` up to the assignment. -/
def buildOperation (route : RouteMetadata κ) (schemas : Schemas κ) : JsonSchema κ × Schemas κ :=
  let (responses, schemas) := buildResponses pydantic route schemas
  let entries := operationEntries route responses
  match route.requestBodyModel with
  | none => (.object entries none, schemas)
  | some model =>
    let (ref, schemas) := registerModel pydantic model schemas
    (.object (entries ++ [("requestBody".toList, record
        [("required", .leaf "true".toList), ("content", jsonContent ref)])])
      none, schemas)

/-! ## The document -/

abbrev Paths (κ : Type) := Dict (List Char) (Dict (List Char) (JsonSchema κ))

def Paths.put (paths : Paths κ) (path method : List Char)
    (operation : JsonSchema κ) : Paths κ :=
  paths.set path (((paths.get? path).getD .empty).set method operation)

def buildPaths (lower : List Char → List Char)
    (metadata : List (RouteMetadata κ)) : Paths κ × Schemas κ :=
  metadata.foldl
    (fun (paths, schemas) route =>
      let (operation, schemas) := buildOperation pydantic route schemas
      (paths.put route.path (lower route.httpMethod) operation, schemas))
    (.empty, .empty)

def collectTags (metadata : List (RouteMetadata κ)) : List (List Char) :=
  metadata.foldl
    (fun seen route =>
      if route.tag.isEmpty || seen.contains route.tag then seen
      else seen ++ [route.tag])
    []

structure OpenAPIGenerator where
  title : List Char
  version : List Char
  description : List Char

namespace OpenAPIGenerator

variable (generator : OpenAPIGenerator) (lower : List Char → List Char)

def buildInfo : JsonSchema κ :=
  .object ([("title".toList, .text generator.title none),
      ("version".toList, .text generator.version none)] ++
      unlessEmpty "description" generator.description (.text generator.description none))
    none

def pathsJson (paths : Paths κ) : JsonSchema κ :=
  .object (paths.mapValues fun _ methods => .object methods.items none).items none

/-- The specification, for what `_build_paths` and `_collect_tags` return. -/
def spec (paths : Paths κ) (schemas : Schemas κ) (tags : List (List Char)) : JsonSchema κ :=
  .object ([("openapi".toList, str "3.1.0"), ("info".toList, generator.buildInfo),
      ("paths".toList, pathsJson paths)] ++
      unlessEmpty "tags" tags
        (.array (tags.map fun tag => record [("name", .text tag none)])) ++
      unlessEmpty "components" schemas.items (record [("schemas", .object schemas.items none)]))
    none

def generate (metadata : Option (List (RouteMetadata κ))) : JsonSchema κ :=
  match metadata with
  | none | some [] => generator.spec .empty .empty []
  | some metadata =>
    let (paths, schemas) := buildPaths pydantic lower metadata
    generator.spec paths schemas (collectTags metadata)

end OpenAPIGenerator

/-- An entry of `components/schemas`. -/
def component (document : JsonSchema κ) (name : List Char) : Option (JsonSchema κ) :=
  ((document.get? "components".toList).bind (get? "schemas".toList)).bind (get? name)

inductive LeadsTo (document : JsonSchema κ) :
    Reference κ → JsonSchema κ → Prop
  | schema {ref : Reference κ} {name : List Char} {schema : JsonSchema κ}
      (htext : ref.text = componentsPath ++ name)
      (hcomponent : component document name = some schema)
      (hdirect : schema.directRef = none) : LeadsTo document ref schema
  | reference {ref next : Reference κ} {name : List Char} {schema result : JsonSchema κ}
      (htext : ref.text = componentsPath ++ name)
      (hcomponent : component document name = some schema)
      (hdirect : schema.directRef = some next)
      (hrest : LeadsTo document next result) : LeadsTo document ref result

def ResolvesReferences (document : JsonSchema κ) : Prop :=
  ∀ ref ∈ document.references, ∃ cls schema,
    ref.origin = some cls ∧ LeadsTo document ref schema ∧ schema.origin = some cls

end PyFly.Web
