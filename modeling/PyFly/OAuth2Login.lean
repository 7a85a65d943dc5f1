import PyFly.Library.Histories
import PyFly.SecurityContext
import PyFly.SessionFilter

/-!
# The OAuth2 login

The authorization route stores a fresh state in the session, and the callback
route compares and removes it before it talks to the provider.  Neither
records for which registration the state was issued.
-/

namespace PyFly.Security

open Library
open PyFly.Session (Heap HttpSession)

/-! ## What the routes work with -/

structure LoginRegistration where
  clientId : String
  redirectUri : String := ""
  scopes : List String := []
  authorizationUri : String := ""
  userInfoUri : String := ""
  deriving DecidableEq, Repr

/-- A value of the user info response; of values which are no strings only
their truth and their `str` matter. -/
inductive UserValue
  | null
  | str (text : String)
  | other (truth : Bool) (text : String)
  deriving DecidableEq, Repr

namespace UserValue

def truth : UserValue → Bool
  | .null => false
  | .str text => text ≠ ""
  | .other truth _ => truth

def toText : UserValue → Option String
  | .null => none
  | .str text => some text
  | .other _ text => some text

end UserValue

def userIdValue (userInfo : Dict String UserValue) : UserValue :=
  let sub := (userInfo.get? "sub").getD .null
  let id := (userInfo.get? "id").getD .null
  if sub.truth then sub
  else if id.truth then id
  else (userInfo.get? "login").getD .null

def buildSecurityContext (userInfo : Dict String UserValue) : SecurityContext where
  userId := (userIdValue userInfo).toText
  attributes := userInfo.filterMapValues fun key value =>
    match value with
    | .str text => if key = "sub" ∨ key = "id" then none else some text
    | _ => none

inductive SessionValue
  | text (value : String)
  | context (value : SecurityContext)

def oauth2StateKey : String := "oauth2_state"

def securityContextKey : String := "SECURITY_CONTEXT"

def redirectUriKey : String := "oauth2_redirect_uri"

structure CallbackQuery where
  state : Option String := none
  error : Option String := none
  errorDescription : Option String := none
  code : Option String := none
  deriving DecidableEq, Repr

inductive LoginResponse
  | redirect (address : String) (parameters : List (String × String))
  | json (error message : String) (status : ℕ)
  deriving DecidableEq, Repr

/-! ## The routes -/

inductive LoginPhase
  | idle
  | exchanging (session : HttpSession) (registration : LoginRegistration)
  | fetching (session : HttpSession) (registration : LoginRegistration)
  | done (session : HttpSession)
  deriving DecidableEq, Repr

structure LoginRun (ι : Type) where
  heap : Heap SessionValue
  drawn : List String
  requests : ι → LoginPhase

/-- Sessions are named by their dictionaries, which overlapping requests on
the in-memory store share. -/
inductive LoginEvent (ι : Type)
  | issued (request : ι) (session : ℕ) (registration state : String)
  | accepted (request : ι) (session : ℕ) (registration state : String)
  | rejected (request : ι) (session : ℕ)
  | loggedIn (request : ι) (session : ℕ) (context : SecurityContext)
  | responded (request : ι) (response : LoginResponse)
  | raised (request : ι)

inductive LoginPick (ι : Type)
  | authorize (request : ι) (session : HttpSession) (registration : String) (state : String)
  | callback (request : ι) (session : HttpSession) (registration : String)
      (query : CallbackQuery)
  | exchanged (request : ι) (answer : Option (Option String))
  | fetched (request : ι) (answer : Option (Dict String UserValue))
  | logout (request : ι) (session : HttpSession)

section Routes

variable {ι : Type} [DecidableEq ι] (find : String → Option LoginRegistration)

def LoginRun.move (request : ι) (phase : LoginPhase) (heap : Heap SessionValue)
    (run : LoginRun ι) : LoginRun ι :=
  { run with
    heap := heap
    requests := Function.update run.requests request phase }

def unknownRegistration (registration : String) : LoginResponse :=
  .json "unknown_registration" ("No registration found for '" ++ registration ++ "'") 400

def handleAuthorization (request : ι) (session : HttpSession)
    (registrationId state : String) (run : LoginRun ι) :
    LoginRun ι × List (LoginEvent ι) :=
  match find registrationId with
  | none =>
    (run.move request (.done session) run.heap,
      [.responded request (unknownRegistration registrationId)])
  | some registration =>
    let (changed, heap) :=
      session.setAttribute oauth2StateKey (.text state) run.heap
    ({ run.move request (.done changed) heap with
        drawn := state :: run.drawn },
      [.issued request session.data registrationId state,
        .responded request (.redirect registration.authorizationUri
          [("response_type", "code"), ("client_id", registration.clientId),
            ("redirect_uri", registration.redirectUri),
            ("scope", " ".intercalate registration.scopes),
            ("state", state)])])

def expectedState (session : HttpSession) (query : CallbackQuery)
    (heap : Heap SessionValue) : Option String :=
  match session.getAttribute oauth2StateKey heap, query.state with
  | some (.text expected), some received =>
    if expected ≠ "" ∧ expected = received then some received else none
  | _, _ => none

/-- `_handle_callback` after the state has been accepted, up to the exchange
of the code. -/
def acceptCallback (request : ι) (session : HttpSession)
    (registration : LoginRegistration) (query : CallbackQuery)
    (heap : Heap SessionValue) (run : LoginRun ι) :
    LoginRun ι × List (LoginEvent ι) :=
  match query.error.filter fun error => error ≠ "" with
  | some error =>
    let description := query.errorDescription.getD ""
    (run.move request (.done session) heap, [.responded request
        (.json error (if description = "" then error else description)
          400)])
  | none =>
    match query.code.filter fun code => code ≠ "" with
    | none =>
      (run.move request (.done session) heap, [.responded request
          (.json "missing_code" "No authorization code in callback" 400)])
    | some _ =>
      (run.move request (.exchanging session registration) heap, [])

/-- `_handle_callback`, up to the exchange of the code. -/
def handleCallback (request : ι) (session : HttpSession)
    (registrationId : String) (query : CallbackQuery) (run : LoginRun ι) :
    LoginRun ι × List (LoginEvent ι) :=
  match find registrationId with
  | none =>
    (run.move request (.done session) run.heap,
      [.responded request (unknownRegistration registrationId)])
  | some registration =>
    match expectedState session query run.heap with
    | none =>
      (run.move request (.done session) run.heap, [.rejected request session.data,
          .responded request (.json "invalid_state" "OAuth2 state parameter mismatch" 400)])
    | some state =>
      let (changed, heap) :=
        session.removeAttribute oauth2StateKey run.heap
      let (next, events) :=
        acceptCallback request changed registration query heap run
      (next, .accepted request session.data registrationId state :: events)

/-- The end of `_handle_callback`. -/
def logIn (request : ι) (session : HttpSession)
    (userInfo : Dict String UserValue) (run : LoginRun ι) :
    LoginRun ι × List (LoginEvent ι) :=
  let context := buildSecurityContext userInfo
  let (stored, heap) :=
    session.setAttribute securityContextKey (.context context) run.heap
  let redirectUri :=
    match stored.getAttribute redirectUriKey heap with
    | some (.text uri) => if uri = "" then "/" else uri
    | _ => "/"
  let (changed, heap) := stored.removeAttribute redirectUriKey heap
  (run.move request (.done changed) heap, [.loggedIn request session.data context,
      .responded request (.redirect redirectUri [])])

/-- `_handle_callback` after the exchange; `_fetch_user_info` waits for the
provider only if there is an address to ask. -/
def handleExchange (request : ι) (session : HttpSession)
    (registration : LoginRegistration) (accessToken : Option String)
    (run : LoginRun ι) : LoginRun ι × List (LoginEvent ι) :=
  match accessToken.filter fun token => token ≠ "" with
  | none =>
    (run.move request (.done session) run.heap,
      [.responded request (.json "token_exchange_failed" "Failed to obtain access token" 502)])
  | some _ =>
    if registration.userInfoUri = "" then logIn request session .empty run
    else (run.move request (.fetching session registration) run.heap, [])

def raise (request : ι) (session : HttpSession) (run : LoginRun ι) :
    LoginRun ι × List (LoginEvent ι) :=
  (run.move request (.done session) run.heap, [.raised request])

/-- Requests on any sessions in any order; `secrets.token_urlsafe` draws a new
state each time. -/
def loginMachine : Machine (LoginRun ι) (LoginPick ι) (LoginEvent ι) where
  step run
    | .authorize request session registrationId state =>
      if run.requests request ≠ .idle ∨ state = "" ∨ state ∈ run.drawn then
        none
      else
        some (handleAuthorization find request session registrationId state run)
    | .callback request session registrationId query =>
      if run.requests request ≠ .idle then none
      else
        some (handleCallback find request session registrationId query run)
    | .exchanged request answer =>
      match run.requests request, answer with
      | .exchanging session _, none => some (raise request session run)
      | .exchanging session registration, some accessToken =>
        some (handleExchange request session registration accessToken run)
      | _, _ => none
    | .fetched request answer =>
      match run.requests request, answer with
      | .fetching session _, none => some (raise request session run)
      | .fetching session _, some userInfo =>
        some (logIn request session userInfo run)
      | _, _ => none
    | .logout request session =>
      if run.requests request ≠ .idle then none
      else
        some (run.move request (.done session.invalidate) run.heap,
          [.responded request (.redirect "/" [])])

end Routes

structure Unvisited where
  heap : Heap SessionValue
  noState : ∀ session, (heap.dicts session).get? oauth2StateKey = none

def Unvisited.start {ι : Type} (unvisited : Unvisited) : LoginRun ι :=
  ⟨unvisited.heap, [], fun _ => .idle⟩

end PyFly.Security
