import Mathlib.Data.Int.Notation
import PyFly.Library.InsertionDict
import PyFly.Library.ScheduledMachine

/-!
# The authorization server

A refresh token is redeemed by a find, a check, a revoke and a store.  Each
operation of the token store is atomic, and calls interleave between them.
-/

namespace PyFly.Security

open Library

/-! ## Clients and tokens -/

structure ClientRegistration where
  clientId : String
  clientSecret : String := ""
  scopes : List String := []
  deriving DecidableEq, Repr

structure TokenData where
  clientId : String
  scope : String
  exp : ℤ
  deriving DecidableEq, Repr

structure AccessPayload where
  sub : String
  scope : String
  iat : ℤ
  exp : ℤ
  iss : Option String
  deriving DecidableEq, Repr

structure TokenResponse where
  accessToken : String
  tokenType : String := "Bearer"
  expiresIn : ℤ
  refreshToken : String
  scope : String
  deriving DecidableEq, Repr

structure ServerConfig where
  secret : String
  find : String → Option ClientRegistration
  accessTokenTtl : ℤ := 3600
  refreshTokenTtl : ℤ := 86400
  issuer : Option String := none
  encode : AccessPayload → String → String

inductive GrantError
  | invalidClient
  | refreshTokenRequired
  | unsupportedGrantType (grantType : String)
  | invalidRefreshToken
  | clientMismatch
  | refreshTokenExpired
  deriving DecidableEq, Repr

namespace GrantError

def code : GrantError → String
  | invalidClient => "INVALID_CLIENT"
  | refreshTokenRequired => "INVALID_REQUEST"
  | unsupportedGrantType _ => "UNSUPPORTED_GRANT_TYPE"
  | invalidRefreshToken | clientMismatch | refreshTokenExpired =>
    "INVALID_GRANT"

def message : GrantError → String
  | invalidClient => "Invalid client credentials"
  | refreshTokenRequired => "Refresh token required"
  | unsupportedGrantType grantType => "Unsupported grant type: " ++ grantType
  | invalidRefreshToken => "Invalid refresh token"
  | clientMismatch => "Refresh token client mismatch"
  | refreshTokenExpired => "Refresh token expired"

end GrantError

/-- `str.isspace` of one character. -/
def isSpace (char : Char) : Bool :=
  char.val ∈ [0x09, 0x0a, 0x0b, 0x0c, 0x0d, 0x1c, 0x1d, 0x1e, 0x1f, 0x20,
    0x85, 0xa0, 0x1680, 0x2000, 0x2001, 0x2002, 0x2003, 0x2004, 0x2005,
    0x2006, 0x2007, 0x2008, 0x2009, 0x200a, 0x2028, 0x2029, 0x202f, 0x205f,
    0x3000]

def splitWords (text : String) : List String :=
  ((text.toList.splitOnP isSpace).filter fun word => word ≠ []).map String.ofList

/-! ## Calls -/

inductive ServerCall
  | token (grantType clientId clientSecret scope : String) (refreshToken : Option String)
  | revoke (tokenId : String)
  deriving DecidableEq, Repr

def ServerCall.presented : ServerCall → Option String
  | .token _ _ _ _ refreshToken => refreshToken
  | .revoke tokenId => some tokenId

inductive CallPhase
  | idle
  | finding (registration : ClientRegistration) (tokenId : String)
  | checking (registration : ClientRegistration) (tokenId : String) (found : Option TokenData)
  | dropping (tokenId : String)
  | rotating (registration : ClientRegistration) (tokenId : String) (token : TokenData)
  | issuing (registration : ClientRegistration) (tokenId : String) (token : TokenData)
  | storing (redeemed : Option String) (payload : AccessPayload) (token : TokenData)
  | revoking (tokenId : String)
  | done
  deriving DecidableEq, Repr

structure ServerRun (ι : Type) where
  tokens : Dict String TokenData
  clock : ℤ
  known : List String
  calls : ι → CallPhase

inductive ServerEvent (ι : Type)
  | failed (call : ι) (error : GrantError)
  | dropped (call : ι) (tokenId : String) (now : ℤ)
  | rotated (call : ι) (client tokenId : String) (now : ℤ)
  | stored (call : ι) (tokenId : String) (token : TokenData)
  | granted (call : ι) (redeemed : Option String) (payload : AccessPayload)
      (response : TokenResponse)
  | revoked (call : ι) (tokenId : String)
  deriving DecidableEq, Repr

/-- The scheduling choices: a call starts, or does what is next, with a
reading of the clock and the outcome of `secrets.token_urlsafe`. -/
inductive ServerPick (ι : Type)
  | start (call : ι) (arguments : ServerCall) (now : ℤ)
  | next (call : ι) (now : ℤ) (newId : String)
  deriving DecidableEq, Repr

section Calls

variable {ι : Type} (config : ServerConfig)

def issue (redeemed : Option String) (registration : ClientRegistration)
    (scope : String) (now : ℤ) : CallPhase :=
  .storing redeemed
    { sub := registration.clientId
      scope := scope
      iat := now
      exp := now + config.accessTokenTtl
      iss := config.issuer.filter fun issuer => issuer ≠ "" }
    { clientId := registration.clientId
      scope := scope
      exp := now + config.refreshTokenTtl }

def handleClientCredentials (registration : ClientRegistration)
    (scope : String) (now : ℤ) : CallPhase :=
  issue config none registration (" ".intercalate
      (if scope ≠ "" then splitWords scope else registration.scopes)) now

/-- `token`, up to the first operation of the token store. -/
def startToken (grantType clientId clientSecret scope : String)
    (refreshToken : Option String) (now : ℤ) : Except GrantError CallPhase :=
  match config.find clientId with
  | none => .error .invalidClient
  | some registration =>
    if registration.clientSecret ≠ clientSecret then .error .invalidClient
    else if grantType = "client_credentials" then
      .ok (handleClientCredentials config registration scope now)
    else if grantType = "refresh_token" then
      match refreshToken with
      | none => .error .refreshTokenRequired
      | some tokenId => .ok (.finding registration tokenId)
    else .error (.unsupportedGrantType grantType)

def startCall (arguments : ServerCall) (now : ℤ) : Except GrantError CallPhase :=
  match arguments with
  | .token grantType clientId clientSecret scope refreshToken =>
    startToken config grantType clientId clientSecret scope refreshToken now
  | .revoke tokenId => .ok (.revoking tokenId)

def checkToken (registration : ClientRegistration) (tokenId : String)
    (found : Option TokenData) (now : ℤ) : Except GrantError CallPhase :=
  match found with
  | none => .error .invalidRefreshToken
  | some token =>
    if token.clientId ≠ registration.clientId then .error .clientMismatch
    else if token.exp < now then .ok (.dropping tokenId)
    else .ok (.rotating registration tokenId token)

def tokenResponse (payload : AccessPayload) (newId : String) : TokenResponse where
  accessToken := config.encode payload config.secret
  expiresIn := config.accessTokenTtl
  refreshToken := newId
  scope := payload.scope

variable [DecidableEq ι]

def ServerRun.move (call : ι) (phase : CallPhase) (now : ℤ) (run : ServerRun ι) : ServerRun ι :=
  { run with clock := now, calls := Function.update run.calls call phase }

def ServerRun.attempt (call : ι) (result : Except GrantError CallPhase)
    (now : ℤ) (run : ServerRun ι) : ServerRun ι × List (ServerEvent ι) :=
  match result with
  | .ok phase => (run.move call phase now, [])
  | .error error => (run.move call .done now, [.failed call error])

def advanceCall (call : ι) (now : ℤ) (newId : String) (run : ServerRun ι) :
    Option (ServerRun ι × List (ServerEvent ι)) :=
  match run.calls call with
  | .finding registration tokenId =>
    some (run.move call (.checking registration tokenId (run.tokens.get? tokenId)) now, [])
  | .checking registration tokenId found =>
    some (run.attempt call (checkToken registration tokenId found now) now)
  | .dropping tokenId =>
    some ({ run.move call .done now with
        tokens := run.tokens.erase tokenId },
      [.dropped call tokenId now, .failed call .refreshTokenExpired])
  | .rotating registration tokenId token =>
    some ({ run.move call (.issuing registration tokenId token) now with
        tokens := run.tokens.erase tokenId },
      [.rotated call registration.clientId tokenId now])
  | .issuing registration tokenId token =>
    some (run.move call (issue config (some tokenId) registration token.scope now) now, [])
  | .storing redeemed payload token =>
    if newId ∈ run.known then none
    else
      some ({ run.move call .done now with
          tokens := run.tokens.set newId token
          known := newId :: run.known },
        [.stored call newId token, .granted call redeemed payload
            (tokenResponse config payload newId)])
  | .revoking tokenId =>
    some ({ run.move call .done now with
        tokens := run.tokens.erase tokenId },
      [.revoked call tokenId])
  | .idle | .done => none

def serverMachine : Machine (ServerRun ι) (ServerPick ι) (ServerEvent ι) where
  step run
    | .start call arguments now =>
      if now < run.clock ∨ run.calls call ≠ .idle then none
      else
        some ({ run with
          known := arguments.presented.toList ++ run.known }.attempt call
            (startCall config arguments now) now)
    | .next call now newId =>
      if now < run.clock then none
      else advanceCall config call now newId run

end Calls

/-- No token has been issued. -/
def ServerRun.start {ι : Type} (clock : ℤ) : ServerRun ι :=
  ⟨.empty, clock, [], fun _ => .idle⟩

end PyFly.Security
