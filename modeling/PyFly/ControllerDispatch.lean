import Mathlib.Data.List.Infix
import Mathlib.Data.List.Sort
import PyFly.Library.InsertionDict

/-!
# The endpoints of two adapters

Both registrars build a closure which resolves the parameters, calls the method
of the controller and turns what it returns into a response.  One of them reads
the `Accept` header and falls back on the handlers of `@controller_advice`
beans.
-/

namespace PyFly.Web

open Library

/-- Code which returns or raises, and may change the world. -/
abbrev Effect (E ω α : Type) := ω → Except E α × ω

namespace Effect

variable {E ω α β : Type}

def ofExcept (outcome : Except E α) : Effect E ω α :=
  fun world => (outcome, world)

def andThen (code : Effect E ω α) (next : α → Effect E ω β) : Effect E ω β :=
  fun world =>
    match code world with
    | (.error exception, world) => (.error exception, world)
    | (.ok value, world) => next value world

/-- `try: … except Exception as exc: …` -/
def rescued (isException : E → Bool) (code : Effect E ω α)
    (rescue : E → Effect E ω α) : Effect E ω α :=
  fun world =>
    match code world with
    | (.error exception, world) =>
      if isException exception then rescue exception world
      else (.error exception, world)
    | done => done

variable {isException : E → Bool} {code : Effect E ω α}
  {rescue : E → Effect E ω α} {world after : ω}

theorem rescued_of_error {exception : E} (h : code world = (.error exception, after)) :
    rescued isException code rescue world = if isException exception then rescue exception after
      else (.error exception, after) := by
  simp [rescued, h]

@[simp] theorem rescued_ofExcept_error (exception : E) :
    rescued isException (ofExcept (.error exception)) rescue world =
      if isException exception then rescue exception world
      else (.error exception, world) := rfl

@[simp] theorem rescued_ofExcept_ok (value : α) :
    rescued isException (ofExcept (.ok value)) rescue world = (.ok value, world) := rfl

theorem andThen_of_error {exception : E} {next : α → Effect E ω β}
    (h : code world = (.error exception, after)) :
    code.andThen next world = (.error exception, after) := by
  simp [andThen, h]

theorem andThen_of_ok {value : α} {next : α → Effect E ω β}
    (h : code world = (.ok value, after)) :
    code.andThen next world = next value after := by
  simp [andThen, h]

end Effect

/-! ## Responses -/

structure HttpResponse where
  status : ℕ
  contentType : Option String
  body : String

inductive ReturnValue (V : Type)
  | none
  | response (response : HttpResponse)
  | value (value : V)

/-- What the endpoints do with values: models and their `model_dump`, lists,
pairs whose first part is a status, `json.dumps` and `dict_to_xml`. -/
structure ValueFormats (E V : Type) where
  isModel : V → Bool
  modelDump : V → Except E V
  items : V → Option (List V)
  ofItems : List V → V
  pair : V → Option (ℕ × V)
  dumps : V → Except E String
  dictToXml : V → Except E String

section Conversion

variable {E V : Type} (formats : ValueFormats E V)

def toJsonData (result : V) : Except E V :=
  if formats.isModel result then formats.modelDump result
  else
    match formats.items result with
    | some (first :: rest) =>
      if formats.isModel first then
        ((first :: rest).mapM formats.modelDump).map formats.ofItems
      else .ok result
    | _ => .ok result

def jsonResponse (content : V) (status : ℕ) : Except E HttpResponse :=
  (formats.dumps content).map (⟨status, some "application/json", ·⟩)

def wantsXml : Option (List Char) → Bool
  | none => false
  | some accept => "application/xml".toList <:+: accept

def toXmlResponse (result : V) (status : ℕ) : Except E HttpResponse :=
  (formats.dictToXml result).map (⟨status, some "application/xml", ·⟩)

def toJsonResponse (result : V) (status : ℕ) : Except E HttpResponse :=
  (toJsonData formats result).bind (jsonResponse formats · status)

def handleReturnValue (result : ReturnValue V) (status : ℕ)
    (accept : Option (List Char)) : Except E HttpResponse :=
  match result with
  | .none => .ok ⟨if status = 200 then 204 else status, none, ""⟩
  | .response response => .ok response
  | .value value =>
    if wantsXml accept then toXmlResponse formats value status
    else toJsonResponse formats value status

@[simp] theorem wantsXml_none : wantsXml none = false := rfl

variable {formats} {value : V} {status : ℕ} {response : HttpResponse}

theorem handleReturnValue_value (accept : Option (List Char)) :
    handleReturnValue formats (.value value) status accept =
      if wantsXml accept then toXmlResponse formats value status
      else toJsonResponse formats value status := rfl

theorem contentType_toXmlResponse (h : toXmlResponse formats value status = .ok response) :
    response.contentType = some "application/xml" := by
  unfold toXmlResponse at h
  cases hxml : formats.dictToXml value with
  | error exception => simp [hxml, Except.map] at h
  | ok body =>
    rw [hxml] at h
    cases h
    rfl

theorem contentType_toJsonResponse (h : toJsonResponse formats value status = .ok response) :
    response.contentType = some "application/json" := by
  unfold toJsonResponse jsonResponse at h
  cases hdata : toJsonData formats value with
  | error exception => simp [hdata, Except.bind] at h
  | ok data =>
    rw [hdata] at h
    cases hbody : formats.dumps data with
    | error exception => simp [hbody, Except.bind, Except.map] at h
    | ok body =>
      simp only [Except.bind, hbody] at h
      cases h
      rfl

end Conversion

/-! ## Exception handlers -/

abbrev ExceptionHandler (E V ω : Type) := E → Effect E ω (ReturnValue V)

abbrev HandlerTable (E τ V ω : Type) := List (τ × ExceptionHandler E V ω)

/-- A controller with the attributes of its instance, in the order of `dir`,
that handle a type of exceptions; its parameter resolver and its mapped
method. -/
structure Controller (E τ κ V ω ρ : Type) where
  handlers : HandlerTable E τ V ω
  resolve : ρ → Effect E ω κ
  method : κ → Effect E ω (ReturnValue V)

/-- What the endpoints of an application share.  The beans of the advice are
created when their handlers are collected. -/
structure Dispatcher (E τ V ω : Type) where
  formats : ValueFormats E V
  isException : E → Bool
  isInstance : E → τ → Bool
  mroLength : τ → ℕ
  adviceBeans : List (Effect E ω (HandlerTable E τ V ω))

variable {E τ κ V ω ρ : Type} [DecidableEq τ]

namespace Dispatcher

variable (app : Dispatcher E τ V ω)

/-- `dict(sorted(handlers.items(), key=…, reverse=True))` -/
def mostSpecificFirst (handlers : Dict τ (ExceptionHandler E V ω)) : HandlerTable E τ V ω :=
  handlers.items.insertionSort fun first second =>
    app.mroLength second.1 ≤ app.mroLength first.1

def collectExceptionHandlers (attributes : HandlerTable E τ V ω) : HandlerTable E τ V ω :=
  app.mostSpecificFirst (Dict.ofList attributes)

/-- The loop of `_collect_global_advice_handlers`. -/
def updateAdvice (handlers : Dict τ (ExceptionHandler E V ω)) :
    List (Effect E ω (HandlerTable E τ V ω)) → Effect E ω (Dict τ (ExceptionHandler E V ω))
  | [] => .ofExcept (.ok handlers)
  | bean :: beans => bean.andThen fun attributes =>
    updateAdvice ((app.collectExceptionHandlers attributes).foldl
        (fun handlers entry => handlers.set entry.1 entry.2) handlers) beans

def collectGlobalAdviceHandlers : Effect E ω (HandlerTable E τ V ω) :=
  (app.updateAdvice .empty app.adviceBeans).andThen fun handlers =>
    .ofExcept (.ok (app.mostSpecificFirst handlers))

def getGlobalAdviceHandlers (cached : Option (HandlerTable E τ V ω)) :
    Effect E ω (HandlerTable E τ V ω) :=
  match cached with
  | some handlers => .ofExcept (.ok handlers)
  | none => app.collectGlobalAdviceHandlers

omit [DecidableEq τ] in
def handlerFor (handlers : HandlerTable E τ V ω) (exception : E) :
    Option (ExceptionHandler E V ω) :=
  (handlers.find? fun entry => app.isInstance exception entry.1).map Prod.snd

def convertHandled (accept : Option (List Char)) (result : ReturnValue V) :
    Except E HttpResponse :=
  match result with
  | .value value =>
    match app.formats.pair value with
    | some (status, body) => jsonResponse app.formats body status
    | none => handleReturnValue app.formats result 200 accept
  | _ => handleReturnValue app.formats result 200 accept

def answer (accept : Option (List Char)) (handler : ExceptionHandler E V ω)
    (exception : E) : Effect E ω HttpResponse :=
  (handler exception).andThen fun result =>
    .ofExcept (app.convertHandled accept result)

/-! ## Endpoints -/

omit [DecidableEq τ] in
def handle (controller : Controller E τ κ V ω ρ) (request : ρ) : Effect E ω (ReturnValue V) :=
  (controller.resolve request).andThen controller.method

/-- The `except` clause of the Starlette endpoint. -/
def starletteExcept (cached : Option (HandlerTable E τ V ω))
    (accept : Option (List Char)) (controller : Controller E τ κ V ω ρ)
    (exception : E) : Effect E ω HttpResponse :=
  match app.handlerFor (app.collectExceptionHandlers controller.handlers)
      exception with
  | some handler => app.answer accept handler exception
  | none => (app.getGlobalAdviceHandlers cached).andThen fun advice =>
    match app.handlerFor advice exception with
    | some handler => app.answer accept handler exception
    | none => .ofExcept (.error exception)

/-- The `except` clause of the FastAPI endpoint. -/
def fastAPIExcept (controller : Controller E τ κ V ω ρ) (exception : E) :
    Effect E ω HttpResponse :=
  match app.handlerFor (app.collectExceptionHandlers controller.handlers)
      exception with
  | some handler => app.answer none handler exception
  | none => .ofExcept (.error exception)

/-- `lazy_endpoint` of the `ControllerRegistrar`; the first request creates the
controller. -/
def starletteEndpoint (initialise : Effect E ω (Controller E τ κ V ω ρ))
    (cached : Option (HandlerTable E τ V ω)) (statusCode : ℕ)
    (accept : Option (List Char)) (request : ρ) : Effect E ω HttpResponse :=
  initialise.andThen fun controller =>
    Effect.rescued app.isException ((handle controller request).andThen fun result =>
        .ofExcept (handleReturnValue app.formats result statusCode accept))
      (app.starletteExcept cached accept controller)

/-- `lazy_endpoint` of the `FastAPIControllerRegistrar`. -/
def fastAPIEndpoint (initialise : Effect E ω (Controller E τ κ V ω ρ))
    (statusCode : ℕ) (request : ρ) : Effect E ω HttpResponse :=
  initialise.andThen fun controller =>
    Effect.rescued app.isException ((handle controller request).andThen fun result =>
        .ofExcept (handleReturnValue app.formats result statusCode none))
      (app.fastAPIExcept controller)

/-! ## Agreement -/

variable (cached : Option (HandlerTable E τ V ω)) (accept : Option (List Char))

def SameConversion (value : V) (status : ℕ) : Prop :=
  wantsXml accept = false ∨
    ∃ exception, toXmlResponse app.formats value status = .error exception ∧
      toJsonResponse app.formats value status = .error exception

/-- The result of a local handler does not depend on the `Accept` header. -/
def SameHandled : ReturnValue V → Prop
  | .value value =>
    (app.formats.pair value).isSome = true ∨ app.SameConversion accept value 200
  | _ => True

/-- An exception is handled by the controller, whose result does not depend on
the `Accept` header; or the advice has no handler for it, or one which ends with
this exception. -/
def SameExcept (controller : Controller E τ κ V ω ρ) (exception : E) (world : ω) : Prop :=
  app.isException exception = false ∨
    match app.handlerFor (app.collectExceptionHandlers controller.handlers)
        exception with
    | some handler => ∀ result, (handler exception world).1 = .ok result →
        app.SameHandled accept result
    | none =>
      match app.getGlobalAdviceHandlers cached world with
      | (.error raised, _) => raised = exception
      | (.ok advice, world) =>
        ∀ handler, app.handlerFor advice exception = some handler →
          (app.answer accept handler exception world).1 = .error exception

def SameNegotiated (controller : Controller E τ κ V ω ρ) (statusCode : ℕ)
    (value : V) (world : ω) : Prop :=
  let starlette := fun exception =>
    if app.isException exception then
      (app.starletteExcept cached accept controller exception world).1
    else .error exception
  let fastAPI := fun exception =>
    if app.isException exception then
      (app.fastAPIExcept controller exception world).1
    else .error exception
  match toXmlResponse app.formats value statusCode,
    toJsonResponse app.formats value statusCode with
  | .ok _, .ok _ => False
  | .ok xml, .error exception => fastAPI exception = .ok xml
  | .error exception, .ok json => starlette exception = .ok json
  | .error exception, .error other => starlette exception = fastAPI other

def SameReturned (controller : Controller E τ κ V ω ρ) (statusCode : ℕ)
    (world : ω) : ReturnValue V → Prop
  | .value value =>
    if wantsXml accept then
      app.SameNegotiated cached accept controller statusCode value world
    else ∀ exception, toJsonResponse app.formats value statusCode = .error exception →
      app.SameExcept cached accept controller exception world
  | _ => True

/-- The request does not come upon what only one of the endpoints does. -/
def Agrees (initialise : Effect E ω (Controller E τ κ V ω ρ))
    (statusCode : ℕ) (request : ρ) (world : ω) : Prop :=
  match initialise world with
  | (.error _, _) => True
  | (.ok controller, world) =>
    match handle controller request world with
    | (.error exception, world) =>
      app.SameExcept cached accept controller exception world
    | (.ok result, world) =>
      app.SameReturned cached accept controller statusCode world result

variable {app cached accept}

/-! ## One place after the other -/

omit [DecidableEq τ] in
theorem toXmlResponse_eq_toJsonResponse_iff {value : V} {status : ℕ} :
    toXmlResponse app.formats value status = toJsonResponse app.formats value status ↔
      ∃ exception, toXmlResponse app.formats value status = .error exception ∧
        toJsonResponse app.formats value status = .error exception := by
  constructor
  · intro heq
    cases hxml : toXmlResponse app.formats value status with
    | error exception => exact ⟨exception, rfl, heq ▸ hxml⟩
    | ok response =>
      have hjson := heq ▸ hxml
      have hone := contentType_toXmlResponse hxml
      rw [contentType_toJsonResponse hjson] at hone
      simp at hone
  · rintro ⟨exception, hxml, hjson⟩
    rw [hxml, hjson]

omit [DecidableEq τ] in
theorem handleReturnValue_eq_iff {value : V} {status : ℕ} :
    handleReturnValue app.formats (.value value) status accept =
        handleReturnValue app.formats (.value value) status none ↔
      app.SameConversion accept value status := by
  unfold SameConversion
  rw [handleReturnValue_value, handleReturnValue_value, wantsXml_none]
  cases hxml : wantsXml accept with
  | false => simp
  | true => simpa using toXmlResponse_eq_toJsonResponse_iff

omit [DecidableEq τ] in
theorem answer_eq_iff {handler : ExceptionHandler E V ω} {exception : E} {world : ω} :
    (app.answer accept handler exception world).1 =
        (app.answer none handler exception world).1 ↔
      ∀ result, (handler exception world).1 = .ok result → app.SameHandled accept result := by
  unfold answer Effect.andThen Effect.ofExcept
  cases hrun : handler exception world with
  | mk outcome world =>
    cases outcome with
    | error raised => simp
    | ok result =>
      have hsame : app.convertHandled accept result = app.convertHandled none result ↔
          app.SameHandled accept result := by
        cases result with
        | none | response =>
          simp [convertHandled, SameHandled, handleReturnValue]
        | value value =>
          cases hpair : app.formats.pair value with
          | none =>
            simpa [convertHandled, SameHandled, hpair] using handleReturnValue_eq_iff
          | some pair => simp [convertHandled, SameHandled, hpair]
      simpa using hsame

variable {controller : Controller E τ κ V ω ρ}

/-- The two `except` clauses end in the same way. -/
theorem except_eq_iff {exception : E} {world : ω} : (if app.isException exception then
        app.starletteExcept cached accept controller exception world
      else (.error exception, world)).1 = (if app.isException exception then
          app.fastAPIExcept controller exception world
        else (.error exception, world)).1 ↔
      app.SameExcept cached accept controller exception world := by
  unfold SameExcept
  cases hkind : app.isException exception with
  | false => simp
  | true =>
    simp only [if_true, Bool.true_eq_false, false_or]
    unfold starletteExcept fastAPIExcept
    cases hlocal : app.handlerFor
        (app.collectExceptionHandlers controller.handlers) exception with
    | some handler => exact answer_eq_iff
    | none =>
      dsimp only
      cases hadvice : app.getGlobalAdviceHandlers cached world with
      | mk outcome after =>
        cases outcome with
        | error raised =>
          rw [Effect.andThen_of_error hadvice]
          simp [Effect.ofExcept]
        | ok advice =>
          rw [Effect.andThen_of_ok hadvice]
          cases hfind : app.handlerFor advice exception with
          | none => simp [Effect.ofExcept, hfind]
          | some handler => simp [Effect.ofExcept, hfind]

theorem returned_eq_iff {statusCode : ℕ} {result : ReturnValue V} {world : ω} :
    (Effect.rescued app.isException
        (.ofExcept (handleReturnValue app.formats result statusCode accept))
        (app.starletteExcept cached accept controller) world).1 =
      (Effect.rescued app.isException
        (.ofExcept (handleReturnValue app.formats result statusCode none))
        (app.fastAPIExcept controller) world).1 ↔
      app.SameReturned cached accept controller statusCode world result := by
  cases result with
  | none | response =>
    simp [SameReturned, handleReturnValue]
  | value value =>
    rw [handleReturnValue_value, handleReturnValue_value, wantsXml_none,
      if_neg Bool.false_ne_true, SameReturned]
    cases hwants : wantsXml accept with
    | false =>
      simp only [Bool.false_eq_true, if_false]
      cases hjson : toJsonResponse app.formats value statusCode with
      | ok response => simp
      | error exception =>
        rw [Effect.rescued_ofExcept_error, Effect.rescued_ofExcept_error, except_eq_iff]
        simp
    | true =>
      simp only [if_true]
      unfold SameNegotiated
      cases hxml : toXmlResponse app.formats value statusCode with
      | ok xml =>
        cases hjson : toJsonResponse app.formats value statusCode with
        | ok json =>
          have hcontent : xml ≠ json := by
            intro hsame
            have hcontent := contentType_toXmlResponse hxml
            rw [hsame, contentType_toJsonResponse hjson] at hcontent
            simp at hcontent
          simpa using hcontent
        | error exception =>
          simp only [Effect.rescued_ofExcept_ok,
            Effect.rescued_ofExcept_error, apply_ite Prod.fst]
          exact eq_comm
      | error exception =>
        cases hjson : toJsonResponse app.formats value statusCode with
        | ok json =>
          simp only [Effect.rescued_ofExcept_ok,
            Effect.rescued_ofExcept_error, apply_ite Prod.fst]
        | error other =>
          simp only [Effect.rescued_ofExcept_error, apply_ite Prod.fst]

omit [DecidableEq τ] in
theorem rescued_handled {request : ρ} {world after : ω} {result : ReturnValue V}
    {convert : ReturnValue V → Except E HttpResponse}
    {rescue : E → Effect E ω HttpResponse}
    (h : handle controller request world = (.ok result, after)) :
    Effect.rescued app.isException ((handle controller request).andThen fun result =>
          .ofExcept (convert result)) rescue world =
      Effect.rescued app.isException (.ofExcept (convert result)) rescue
        after := by
  unfold Effect.rescued
  rw [Effect.andThen_of_ok h]

/-- An application whose values are empty lists. -/
def emptyDispatcher : Dispatcher Unit Unit Unit Unit where
  formats :=
    { isModel := fun _ => false
      modelDump := .ok
      items := fun _ => some []
      ofItems := fun _ => ()
      pair := fun _ => none
      dumps := fun _ => .ok "[]"
      dictToXml := fun _ => .ok "<response />" }
  isException _ := true
  isInstance _ _ := true
  mroLength _ := 1
  adviceBeans := []

def emptyController : Controller Unit Unit Unit Unit Unit Unit where
  handlers := []
  resolve _ := .ofExcept (.ok ())
  method _ := .ofExcept (.ok (.value ()))

end Dispatcher

end PyFly.Web
