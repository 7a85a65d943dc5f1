import PyFly.Library.Globs
import PyFly.Library.UrlSplit
import PyFly.SecurityContext

/-!
# Access rules on URL patterns

The filter reads the path of `request.url`, which is split off the URL that
Starlette puts together from the scope.
-/

namespace PyFly.Security

open Library

/-! ## Rules -/

inductive AccessRule
  | permitAll
  | denyAll
  | authenticated
  | hasRole (role : String)
  | hasAnyRole (roles : List String)
  | hasPermission (permission : String)

structure SecurityRule where
  patterns : List (List Char)
  rule : AccessRule

structure HttpSecurity where
  rules : List SecurityRule := []

structure RequestMatcherBuilder where
  registry : HttpSecurity
  patterns : List (List Char)

namespace HttpSecurity

def requestMatchers (security : HttpSecurity) (patterns : List (List Char)) :
    RequestMatcherBuilder :=
  ⟨security, patterns⟩

def anyRequest (security : HttpSecurity) : RequestMatcherBuilder :=
  ⟨security, []⟩

def addRule (security : HttpSecurity) (patterns : List (List Char))
    (rule : AccessRule) : HttpSecurity :=
  ⟨security.rules ++ [⟨patterns, rule⟩]⟩

end HttpSecurity

namespace RequestMatcherBuilder

variable (builder : RequestMatcherBuilder)

def permitAll : HttpSecurity :=
  builder.registry.addRule builder.patterns .permitAll

def denyAll : HttpSecurity :=
  builder.registry.addRule builder.patterns .denyAll

def authenticated : HttpSecurity :=
  builder.registry.addRule builder.patterns .authenticated

def hasRole (role : String) : HttpSecurity :=
  builder.registry.addRule builder.patterns (.hasRole role)

def hasAnyRole (roles : List String) : HttpSecurity :=
  builder.registry.addRule builder.patterns (.hasAnyRole roles)

def hasPermission (permission : String) : HttpSecurity :=
  builder.registry.addRule builder.patterns (.hasPermission permission)

end RequestMatcherBuilder

/-! ## Requests -/

inductive Scheme
  | http
  | https

def Scheme.text : Scheme → List Char
  | http => "http".toList
  | https => "https".toList

/-- A request with the decoded path of its scope, on which the router
dispatches, and the security context which an earlier filter has left. -/
structure HttpRequest where
  scheme : Scheme
  host : List Char
  path : List Char
  queryString : List Char := []
  securityContext : Option SecurityContext := none

namespace HttpRequest

variable (request : HttpRequest)

def url : List Char :=
  request.scheme.text ++ "://".toList ++ request.host ++ request.path ++
    if request.queryString.isEmpty then [] else '?' :: request.queryString

/-- `request.url.path`; `none` where `urlsplit` raises. -/
def urlPath (checks : NetlocChecks) : Option (List Char) :=
  (urlsplit checks request.url).map SplitResult.path

def context : SecurityContext := request.securityContext.getD {}

end HttpRequest

/-! ## The filter -/

structure Problem where
  type : String := "about:blank"
  title : String
  status : ℕ
  detail : String
  path : List Char

inductive FilterAnswer
  | callNext
  | problem (response : Problem)

def unauthorizedProblem (path : List Char) : FilterAnswer :=
  .problem {
    status := 401
    title := "Unauthorized"
    detail := "Authentication is required to access this resource."
    path := path }

def forbiddenProblem (detail : String) (path : List Char) : FilterAnswer :=
  .problem {
    status := 403
    title := "Forbidden"
    detail := detail
    path := path }

def matchesPath (path : List Char) (patterns : List (List Char)) : Bool :=
  patterns.isEmpty || patterns.any (fnmatch path ·)

def listText (repr : String → String) (items : List String) : String :=
  "[" ++ ", ".intercalate (items.map repr) ++ "]"

def requireGranted (context : SecurityContext) (path : List Char)
    (granted : Bool) (detail : String) : FilterAnswer :=
  if !context.isAuthenticated then unauthorizedProblem path
  else if !granted then forbiddenProblem detail path
  else .callNext

/-- What a rule which matches makes of the request. -/
def AccessRule.answer (repr : String → String) (context : SecurityContext)
    (path : List Char) : AccessRule → FilterAnswer
  | .permitAll => .callNext
  | .denyAll => forbiddenProblem "Access to this resource is denied." path
  | .authenticated =>
    if !context.isAuthenticated then unauthorizedProblem path else .callNext
  | .hasRole role =>
    requireGranted context path (context.hasRole role)
      ("Required role '" ++ role ++ "' is not granted.")
  | .hasAnyRole roles =>
    requireGranted context path (context.hasAnyRole roles)
      ("One of roles " ++ listText repr roles ++ " is required.")
  | .hasPermission permission =>
    requireGranted context path (context.hasPermission permission)
      ("Required permission '" ++ permission ++ "' is not granted.")

def answerRules (repr : String → String) (context : SecurityContext)
    (path : List Char) : List SecurityRule → FilterAnswer
  | [] => .callNext
  | rule :: rules =>
    if !matchesPath path rule.patterns then
      answerRules repr context path rules
    else rule.rule.answer repr context path

structure HttpSecurityFilter where
  rules : List SecurityRule

def HttpSecurity.build (security : HttpSecurity) : HttpSecurityFilter :=
  ⟨security.rules⟩

/-- `do_filter`; `none` where `request.url` raises. -/
def HttpSecurityFilter.doFilter (filter : HttpSecurityFilter)
    (checks : NetlocChecks) (repr : String → String) (request : HttpRequest) :
    Option FilterAnswer := do
  let path ← request.urlPath checks
  some (answerRules repr request.context path filter.rules)

end PyFly.Security
