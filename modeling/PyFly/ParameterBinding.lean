import PyFly.Library.InsertionDict
import PyFly.Library.IntegerText

/-!
# Parameters of handlers

The OpenAPI metadata and the parameter resolver walk over the same signature.
What the metadata marks as required is bound to `None` where a request leaves
it out.
-/

namespace PyFly.Web

open Library List

/-! ## Signatures -/

inductive ParamSource
  | path
  | query
  | header
  | cookie
  deriving DecidableEq

inductive ParamType
  | str
  | int
  | bool

inductive ParamValue
  | none
  | text (value : List Char)
  | integer (value : ℤ)
  | boolean (value : Bool)
  | object (ref : ℕ)

/-- `PathVar[T]` and the like, or `Valid[PathVar[T]]` and the like. -/
inductive ParamHint
  | binding (source : ParamSource) (inner : ParamType)
  | valid (source : ParamSource) (inner : ParamType)

def ParamHint.source : ParamHint → ParamSource
  | binding source _ | valid source _ => source

def ParamHint.inner : ParamHint → ParamType
  | binding _ inner | valid _ inner => inner

structure HandlerParameter where
  name : List Char
  hint : ParamHint
  default : Option ParamValue := none

structure HandlerSignature where
  parameters : List HandlerParameter
  nodup : (parameters.map HandlerParameter.name).Nodup

/-- `name.replace("_", "-")` -/
def kebab (name : List Char) : List Char :=
  name.map fun char => if char = '_' then '-' else char

/-! ## Metadata -/

inductive SchemaType
  | string
  | integer
  | boolean

def pyTypeToOpenapi : ParamType → SchemaType
  | .int => .integer
  | .bool => .boolean
  | .str => .string

structure ParamMetadata where
  name : List Char
  location : ParamSource
  required : Bool
  schemaType : SchemaType
  schemaDefault : Option ParamValue := none

/-- The entry of `_extract_param_metadata` for a parameter. -/
def HandlerParameter.metadata (param : HandlerParameter) : ParamMetadata :=
  let schemaType := pyTypeToOpenapi param.hint.inner
  match param.hint.source with
  | .path => ⟨param.name, .path, true, schemaType, none⟩
  | .query =>
    ⟨param.name, .query, param.default.isNone, schemaType, param.default⟩
  | .header =>
    ⟨kebab param.name, .header, param.default.isNone, schemaType, none⟩
  | .cookie => ⟨param.name, .cookie, param.default.isNone, schemaType, none⟩

/-! ## The resolver -/

structure ResolvedParam where
  name : List Char
  bindingType : ParamSource
  innerType : ParamType
  default : Option ParamValue
  validate : Bool

/-- The entry of `_inspect` for a parameter. -/
def HandlerParameter.inspect (param : HandlerParameter) : ResolvedParam :=
  match param.hint with
  | .binding source inner => ⟨param.name, source, inner, param.default, false⟩
  | .valid source inner => ⟨param.name, source, inner, param.default, true⟩

structure PathSegment (ints : IntegerSyntax) where
  text : List Char
  converted : Option ℤ := none
  converts : ∀ n, converted = some n → ints.parseInt text = some n :=
    by simp

structure HandlerRequest (ints : IntegerSyntax) where
  pathParams : List Char → Option (PathSegment ints) := fun _ => none
  queryParams : List Char → Option (List Char) := fun _ => none
  headers : List Char → Option (List Char) := fun _ => none
  cookies : List Char → Option (List Char) := fun _ => none

inductive RawValue
  | text (value : List Char)
  | integer (value : ℤ)

inductive BindingError
  | missingPathVariable (name : List Char)
  | typeConversion (value : List Char) (type : ParamType)

variable {ints : IntegerSyntax}

def PathSegment.raw (segment : PathSegment ints) : RawValue :=
  match segment.converted with
  | some n => .integer n
  | none => .text segment.text

def coerce (ints : IntegerSyntax) (raw : RawValue) : ParamType → Except BindingError ParamValue
  | .str =>
    match raw with
    | .text text => .ok (.text text)
    | .integer n => .ok (.integer n)
  | .int =>
    match raw with
    | .text text =>
      match ints.parseInt text with
      | some n => .ok (.integer n)
      | none => .error (.typeConversion text .int)
    | .integer n => .ok (.integer n)
  | .bool =>
    match raw with
    | .text text => .ok (.boolean !text.isEmpty)
    | .integer n => .ok (.boolean (n != 0))

def resolveRaw (ints : IntegerSyntax) (param : ResolvedParam)
    (raw : Option RawValue) (missing : Except BindingError ParamValue) :
    Except BindingError ParamValue :=
  match raw with
  | some raw => coerce ints raw param.innerType
  | none =>
    match param.default with
    | some default => .ok default
    | none => missing

namespace HandlerRequest

variable (request : HandlerRequest ints) (param : ResolvedParam)

def resolvePathVar : Except BindingError ParamValue :=
  resolveRaw ints param ((request.pathParams param.name).map PathSegment.raw)
    (.error (.missingPathVariable param.name))

def resolveQueryParam : Except BindingError ParamValue :=
  resolveRaw ints param ((request.queryParams param.name).map .text) (.ok .none)

def resolveHeader : Except BindingError ParamValue :=
  let headerName := kebab param.name
  resolveRaw ints param ((request.headers (headerName.map Char.toLower)).map .text) (.ok .none)

def resolveCookie : Except BindingError ParamValue :=
  resolveRaw ints param ((request.cookies param.name).map .text) (.ok .none)

def resolveOne : Except BindingError ParamValue :=
  match param.bindingType with
  | .path => request.resolvePathVar param
  | .query => request.resolveQueryParam param
  | .header => request.resolveHeader param
  | .cookie => request.resolveCookie param

/-- `_run_validation` for types which are no models. -/
def runValidation (value : ParamValue) : ParamValue := value

/-- The loop of `resolve`. -/
def resolve : List ResolvedParam → Dict (List Char) ParamValue →
    Except BindingError (Dict (List Char) ParamValue)
  | [], kwargs => .ok kwargs
  | param :: params, kwargs =>
    match request.resolveOne param with
    | .error error => .error error
    | .ok value =>
      resolve params (kwargs.set param.name
        (if param.validate then runValidation value else value))

def kwargs (signature : HandlerSignature) : Except BindingError (Dict (List Char) ParamValue) :=
  request.resolve (signature.parameters.map HandlerParameter.inspect) .empty

end HandlerRequest

/-! ## The documented contract -/

inductive SchemaValue
  | string (text : List Char)
  | integer (n : ℤ)
  | boolean (value : Bool)

namespace SchemaValue

def type : SchemaValue → SchemaType
  | string _ => .string
  | integer _ => .integer
  | boolean _ => .boolean

/-- Its JSON; a string stands for itself. -/
def render : SchemaValue → List Char
  | string text => text
  | integer n => renderInt n
  | boolean true => "true".toList
  | boolean false => "false".toList

def value : SchemaValue → ParamValue
  | string text => .text text
  | integer n => .integer n
  | boolean value => .boolean value

end SchemaValue

def ParamMetadata.sent (metadata : ParamMetadata)
    (request : HandlerRequest ints) : Option (List Char) :=
  match metadata.location with
  | .path => (request.pathParams metadata.name).map PathSegment.text
  | .query => request.queryParams metadata.name
  | .header => request.headers (metadata.name.map Char.toLower)
  | .cookie => request.cookies metadata.name

section Contract

variable (signature : HandlerSignature) (request : HandlerRequest ints)

def Binds (param : HandlerParameter) (value : ParamValue) : Prop :=
  request.resolveOne param.inspect = .ok value ∧
    ∀ kwargs, request.kwargs signature = .ok kwargs → kwargs.get? param.name = some value

structure FollowsMetadata : Prop where
  required : ∀ kwargs, request.kwargs signature = .ok kwargs →
    ∀ param ∈ signature.parameters, param.metadata.required = true →
      (param.metadata.sent request).isSome = true
  optional : ∀ param ∈ signature.parameters,
    param.metadata.required = false → param.metadata.sent request = none →
      ∀ default, param.default = some default → Binds signature request param default
  sent : ∀ param ∈ signature.parameters, ∀ value : SchemaValue,
    value.type = param.metadata.schemaType → param.metadata.sent request = some value.render →
        Binds signature request param value.value

def LeftAsText (param : HandlerParameter) : Prop :=
  param.hint.source = .path → ∀ segment, request.pathParams param.name =
    some segment → segment.converted = none

/-- What is sent for a parameter and read as it was meant: a text which the
route does not convert, an integer which `int` reads, or `true`. -/
def Readable (param : HandlerParameter) : SchemaValue → Prop
  | .string _ => LeftAsText request param
  | .integer n => (renderNat n.natAbs).length ≤ ints.maxDigits
  | .boolean value => value = true ∧ LeftAsText request param

structure BindsParameters : Prop where
  missing : ∀ kwargs, request.kwargs signature = .ok kwargs →
    ∀ param ∈ signature.parameters, param.hint.source = .path →
      param.default = none → (param.metadata.sent request).isSome = true
  unset : ∀ param ∈ signature.parameters, param.hint.source ≠ .path →
    param.default = none → param.metadata.sent request = none →
      Binds signature request param .none
  default : ∀ param ∈ signature.parameters, param.metadata.sent request = none →
      ∀ default, param.default = some default → Binds signature request param default
  sent : ∀ param ∈ signature.parameters, ∀ value : SchemaValue,
    value.type = param.metadata.schemaType →
      param.metadata.sent request = some value.render → Readable request param value →
          Binds signature request param value.value

end Contract

variable {signature : HandlerSignature} {request : HandlerRequest ints}
  {param : HandlerParameter}

/-! ## One parameter -/

def HandlerParameter.raw (param : HandlerParameter)
    (request : HandlerRequest ints) : Option RawValue :=
  match param.hint.source with
  | .path => (request.pathParams param.name).map PathSegment.raw
  | .query => (request.queryParams param.name).map .text
  | .header =>
    (request.headers ((kebab param.name).map Char.toLower)).map .text
  | .cookie => (request.cookies param.name).map .text

theorem resolveOne_inspect : request.resolveOne param.inspect =
      resolveRaw ints param.inspect (param.raw request) (if param.hint.source = .path then
          .error (.missingPathVariable param.name)
        else .ok .none) := by
  obtain ⟨name, hint, default⟩ := param
  cases hint with
  | binding source inner | valid source inner => cases source <;> rfl

@[simp] theorem innerType_inspect :
    param.inspect.innerType = param.hint.inner := by
  obtain ⟨name, hint, default⟩ := param
  cases hint <;> rfl

@[simp] theorem default_inspect : param.inspect.default = param.default := by
  obtain ⟨name, hint, default⟩ := param
  cases hint <;> rfl

@[simp] theorem name_inspect : param.inspect.name = param.name := by
  obtain ⟨name, hint, default⟩ := param
  cases hint <;> rfl

@[simp] theorem schemaType_metadata :
    param.metadata.schemaType = pyTypeToOpenapi param.hint.inner := by
  unfold HandlerParameter.metadata
  cases param.hint.source <;> rfl

theorem required_metadata : param.metadata.required = true ↔
      param.hint.source = .path ∨ param.default = none := by
  unfold HandlerParameter.metadata
  cases param.hint.source <;> simp

theorem sent_metadata : param.metadata.sent request = match param.hint.source with
      | .path => (request.pathParams param.name).map PathSegment.text
      | .query => request.queryParams param.name
      | .header => request.headers ((kebab param.name).map Char.toLower)
      | .cookie => request.cookies param.name := by
  unfold HandlerParameter.metadata ParamMetadata.sent
  cases param.hint.source <;> rfl

theorem raw_eq_none_iff : param.raw request = none ↔ param.metadata.sent request = none := by
  rw [sent_metadata]
  unfold HandlerParameter.raw
  cases param.hint.source <;> simp

theorem raw_of_sent {text : List Char} (h : param.metadata.sent request = some text)
    (htext : LeftAsText request param) :
    param.raw request = some (.text text) := by
  rw [sent_metadata] at h
  unfold HandlerParameter.raw
  cases hsource : param.hint.source with
  | path =>
    rw [hsource] at h
    obtain ⟨segment, hsegment, rfl⟩ := Option.map_eq_some_iff.mp h
    simp [hsegment, PathSegment.raw, htext hsource segment hsegment]
  | query | header | cookie =>
    rw [hsource] at h
    simp [show _ = some text from h]

theorem coerce_int_of_sent {text : List Char} {n : ℤ}
    (h : param.metadata.sent request = some text)
    (hparse : ints.parseInt text = some n) :
    ∃ raw, param.raw request = some raw ∧ coerce ints raw .int = .ok (.integer n) := by
  rw [sent_metadata] at h
  unfold HandlerParameter.raw
  cases hsource : param.hint.source with
  | path =>
    rw [hsource] at h
    obtain ⟨segment, hsegment, rfl⟩ := Option.map_eq_some_iff.mp h
    refine ⟨segment.raw, by simp [hsegment], ?_⟩
    cases hconverted : segment.converted with
    | none => simp [PathSegment.raw, hconverted, coerce, hparse]
    | some m =>
      have hsame := segment.converts m hconverted
      rw [hparse] at hsame
      simp [PathSegment.raw, hconverted, coerce, Option.some.inj hsame]
  | query | header | cookie =>
    rw [hsource] at h
    refine ⟨.text text, by simp [show _ = some text from h], ?_⟩
    simp [coerce, hparse]

theorem get?_resolve_of_notMem {params : List ResolvedParam}
    {before kwargs : Dict (List Char) ParamValue} {name : List Char}
    (h : request.resolve params before = .ok kwargs)
    (hname : name ∉ params.map ResolvedParam.name) :
    kwargs.get? name = before.get? name := by
  induction params generalizing before with
  | nil =>
    cases h
    rfl
  | cons first params ih =>
    rw [HandlerRequest.resolve] at h
    cases hfirst : request.resolveOne first with
    | error error =>
      rw [hfirst] at h
      cases h
    | ok value =>
      rw [hfirst] at h
      have hne : name ≠ first.name :=
        fun heq => hname (heq ▸ mem_cons_self)
      rw [ih h fun hmem => hname (mem_cons_of_mem _ hmem), Dict.get?_set_of_ne hne]

theorem get?_resolve {params : List ResolvedParam}
    {before kwargs : Dict (List Char) ParamValue} {param : ResolvedParam}
    (hnodup : (params.map ResolvedParam.name).Nodup)
    (h : request.resolve params before = .ok kwargs) (hparam : param ∈ params) :
    ∃ value, request.resolveOne param = .ok value ∧ kwargs.get? param.name = some value := by
  induction params generalizing before with
  | nil => simp at hparam
  | cons first params ih =>
    obtain ⟨hfirst, hnodup⟩ := nodup_cons.mp hnodup
    rw [HandlerRequest.resolve] at h
    cases hvalue : request.resolveOne first with
    | error error =>
      rw [hvalue] at h
      cases h
    | ok value =>
      rw [hvalue] at h
      rcases mem_cons.mp hparam with rfl | hparam
      · refine ⟨value, hvalue, ?_⟩
        rw [get?_resolve_of_notMem h hfirst, Dict.get?_set_self]
        simp [HandlerRequest.runValidation]
      · exact ih hnodup h hparam

theorem binds_iff (hparam : param ∈ signature.parameters) {value : ParamValue} :
    Binds signature request param value ↔ request.resolveOne param.inspect = .ok value := by
  refine ⟨And.left, fun h => ⟨h, ?_⟩⟩
  intro kwargs hkwargs
  have hnodup : ((signature.parameters.map HandlerParameter.inspect).map
      ResolvedParam.name).Nodup := by
    simpa [Function.comp_def] using signature.nodup
  obtain ⟨bound, hbound, hget⟩ :=
    get?_resolve hnodup hkwargs (mem_map_of_mem hparam)
  rw [h] at hbound
  rw [name_inspect] at hget
  rw [hget, Except.ok.inj hbound]

/-! ## The contract -/

theorem resolveOne_of_absent (h : param.metadata.sent request = none) :
    request.resolveOne param.inspect = match param.default with
      | some default => .ok default
      | none =>
        if param.hint.source = .path then
          .error (.missingPathVariable param.name)
        else .ok .none := by
  rw [resolveOne_inspect, raw_eq_none_iff.mpr h, resolveRaw, default_inspect]

theorem resolveOne_of_raw {raw : RawValue} (h : param.raw request = some raw) :
    request.resolveOne param.inspect = coerce ints raw param.hint.inner := by
  rw [resolveOne_inspect, h, resolveRaw, innerType_inspect]

theorem resolveOne_of_sent {value : SchemaValue}
    (htype : value.type = param.metadata.schemaType)
    (h : param.metadata.sent request = some value.render)
    (hreadable : Readable request param value) :
    request.resolveOne param.inspect = .ok value.value := by
  rw [schemaType_metadata] at htype
  cases value with
  | string text =>
    rw [resolveOne_of_raw (raw_of_sent h hreadable)]
    cases hinner : param.hint.inner with
    | str => rfl
    | int | bool => rw [hinner] at htype; cases htype
  | integer n =>
    have hparse : ints.parseInt (renderInt n) = some n := by
      rw [IntegerSyntax.parseInt_renderInt]
      exact if_pos hreadable
    obtain ⟨raw, hraw, hcoerce⟩ := coerce_int_of_sent h hparse
    rw [resolveOne_of_raw hraw]
    cases hinner : param.hint.inner with
    | int => exact hcoerce
    | str | bool => rw [hinner] at htype; cases htype
  | boolean value =>
    obtain ⟨rfl, htext⟩ := hreadable
    rw [resolveOne_of_raw (raw_of_sent h htext)]
    cases hinner : param.hint.inner with
    | bool => rfl
    | str | int => rw [hinner] at htype; cases htype

/-- A missing path variable keeps the handler from being called; another
parameter that is absent has its default or `None`; a parameter that is sent has
the value that it is the text of. -/
theorem bindsParameters (signature : HandlerSignature)
    (request : HandlerRequest ints) : BindsParameters signature request where
  missing kwargs hkwargs param hparam hpath hdefault := by
    rw [Option.isSome_iff_ne_none]
    intro habsent
    have hnodup : ((signature.parameters.map HandlerParameter.inspect).map
        ResolvedParam.name).Nodup := by
      simpa [Function.comp_def] using signature.nodup
    obtain ⟨bound, hbound, -⟩ :=
      get?_resolve hnodup hkwargs (mem_map_of_mem hparam)
    rw [resolveOne_of_absent habsent, hdefault] at hbound
    simp [hpath] at hbound
  unset param hparam hpath hdefault habsent := by
    rw [binds_iff hparam, resolveOne_of_absent habsent, hdefault]
    simp [hpath]
  default param hparam habsent default hdefault := by
    rw [binds_iff hparam, resolveOne_of_absent habsent, hdefault]
  sent param hparam value htype hsent hreadable := by
    rw [binds_iff hparam]
    exact resolveOne_of_sent htype hsent hreadable

/-! ## Where the metadata is not followed -/

def asciiIntegers : IntegerSyntax where
  isSpace := Char.isWhitespace
  digit char := if char.isDigit then some (char.toNat - '0'.toNat) else none
  maxDigits := 4300
  digit_digitChar d hd := by interval_cases d <;> decide
  isSpace_digitChar d hd := by interval_cases d <;> decide
  isSpace_minus := by decide

/-- A parameter `p` alone. -/
def single (source : ParamSource) (inner : ParamType)
    (default : Option ParamValue) : HandlerSignature where
  parameters := [⟨['p'], .binding source inner, default⟩]
  nodup := nodup_singleton _

theorem not_followsMetadata_of_lt {n : ℕ} (h : asciiIntegers.maxDigits < (renderNat n).length) :
    ¬ FollowsMetadata (single .query .int none)
      ({ queryParams := fun _ => some (renderInt n) } : HandlerRequest asciiIntegers) := by
  intro hfollows
  have hbound :=
    (hfollows.sent _ mem_cons_self (.integer n) rfl rfl).1
  have hparse : asciiIntegers.parseInt (renderInt n) = none := by
    rw [IntegerSyntax.parseInt_renderInt]
    exact if_neg (not_le.mpr h)
  rw [resolveOne_of_raw (show _ = some (RawValue.text (renderInt n)) from rfl)]
    at hbound
  simp [ParamHint.inner, coerce, hparse] at hbound

/-- A query parameter without a default and a path variable with one are absent;
`false` is bound to `True`; an integer has too many digits; the route converts a
path variable that should be a string. -/
theorem not_followsMetadata : ¬ FollowsMetadata (single .query .int none)
        ({} : HandlerRequest asciiIntegers) ∧
      ¬ FollowsMetadata (single .path .str (some (.text [])))
        ({} : HandlerRequest asciiIntegers) ∧
      ¬ FollowsMetadata (single .query .bool none)
        ({ queryParams := fun _ => some "false".toList } : HandlerRequest asciiIntegers) ∧
      ¬ FollowsMetadata (single .query .int none)
        ({ queryParams := fun _ => some (renderInt (10 ^ 4300 : ℕ)) } :
          HandlerRequest asciiIntegers) ∧
      ¬ FollowsMetadata (single .path .str none)
        ({ pathParams := fun _ => some
            { text := ['7']
              converted := some 7
              converts := by decide } } : HandlerRequest asciiIntegers) := by
  refine ⟨?_, ?_, ?_, ?_, ?_⟩
  · intro h
    have hsent := h.required _ rfl _ mem_cons_self rfl
    cases hsent
  · intro h
    have hsent := h.required _ rfl _ mem_cons_self rfl
    cases hsent
  · intro h
    have hbound := (h.sent _ mem_cons_self (.boolean false) rfl rfl).1
    cases hbound
  · apply not_followsMetadata_of_lt
    rw [length_renderNat_pow]
    exact Nat.lt_succ_self 4300
  · intro h
    have hbound := (h.sent _ mem_cons_self (.string ['7']) rfl rfl).1
    cases hbound

end PyFly.Web
