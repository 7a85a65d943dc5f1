import PyFly.OAuth2Login
import PyFly.WebFilters

/-!
# Authentication by filters

Three filters write the security context of a request.  The two which read a
bearer token overwrite what an earlier one has left, and the one which reads
the session leaves the request context alone.
-/

namespace PyFly.Security

open Library List
open PyFly.Session (Heap HttpSession)
open PyFly.Web (highestPrecedence shouldNotFilter)

/-! ## Filters -/

/-- What `to_security_context` of a `JWTService` or a `JWKSTokenValidator` does
with a token: it returns a context, or raises a `SecurityException` or another
exception. -/
inductive TokenAnswer
  | accepted (context : SecurityContext)
  | rejected
  | raised

abbrev TokenValidator := List Char → TokenAnswer

structure InboundRequest where
  http : HttpRequest
  authorization : Option (List Char)
  session : Option HttpSession
  requestContext : Option (Option SecurityContext)

def bearerToken (authorization : Option (List Char)) : Option (List Char) :=
  let header := authorization.getD []
  if "Bearer ".toList.isPrefixOf header then some (header.drop 7) else none

def tokenContext (toSecurityContext : TokenValidator)
    (authorization : Option (List Char)) : Option SecurityContext :=
  match bearerToken authorization with
  | none => some .anonymous
  | some token =>
    match toSecurityContext token with
    | .accepted context => some context
    | .rejected => some .anonymous
    | .raised => none

namespace InboundRequest

variable (request : InboundRequest)

def setStateContext (context : SecurityContext) : InboundRequest :=
  { request with http := { request.http with securityContext := some context } }

def setContext (context : SecurityContext) : InboundRequest :=
  { request.setStateContext context with
    requestContext := request.requestContext.map fun _ => some context }

end InboundRequest

def storedContext (heap : Heap SessionValue) (session : HttpSession) : Option SecurityContext :=
  match session.getAttribute securityContextKey heap with
  | some (.context stored) =>
    if stored.isAuthenticated then some stored else none
  | _ => none

inductive AuthenticationFilter
  | security (jwtService : TokenValidator) (excludePatterns : List (List Char))
  | oauth2SessionSecurity
  | oauth2ResourceServer (tokenValidator : TokenValidator) (excludePatterns : List (List Char))

/-- What `do_filter` leaves when it calls `call_next`. -/
def tokenFilter (toSecurityContext : TokenValidator)
    (request : InboundRequest) : Option InboundRequest :=
  (tokenContext toSecurityContext request.authorization).map request.setContext

def securityFilter (jwtService : TokenValidator) : InboundRequest → Option InboundRequest :=
  tokenFilter jwtService

def oauth2ResourceServerFilter (tokenValidator : TokenValidator) :
    InboundRequest → Option InboundRequest :=
  tokenFilter tokenValidator

def oauth2SessionSecurityFilter (heap : Heap SessionValue)
    (request : InboundRequest) : InboundRequest :=
  match request.session.bind (storedContext heap) with
  | some stored => request.setStateContext stored
  | none =>
    match request.http.securityContext with
    | none => request.setStateContext .anonymous
    | some _ => request

namespace AuthenticationFilter

def order : AuthenticationFilter → ℤ
  | security _ _ => highestPrecedence + 220
  | oauth2SessionSecurity => highestPrecedence + 225
  | oauth2ResourceServer _ _ => highestPrecedence + 250

def excludePatterns : AuthenticationFilter → List (List Char)
  | security _ patterns | oauth2ResourceServer _ patterns => patterns
  | oauth2SessionSecurity => []

def doFilter (heap : Heap SessionValue) :
    AuthenticationFilter → InboundRequest → Option InboundRequest
  | security jwtService _, request => securityFilter jwtService request
  | oauth2SessionSecurity, request =>
    some (oauth2SessionSecurityFilter heap request)
  | oauth2ResourceServer tokenValidator _, request =>
    oauth2ResourceServerFilter tokenValidator request

def enter (checks : NetlocChecks) (heap : Heap SessionValue)
    (request : InboundRequest) (filter : AuthenticationFilter) :
    Option InboundRequest := do
  if ← shouldNotFilter checks [] filter.excludePatterns request.http then
    some request
  else filter.doFilter heap request

end AuthenticationFilter

variable (checks : NetlocChecks) (heap : Heap SessionValue)
  (http : HttpRequest) (authorization : Option (List Char))
  (session : HttpSession)

def behindSession : Option InboundRequest :=
  (shouldNotFilter checks [] [] http).map fun _ =>
    { http := { http with securityContext := none }
      authorization := authorization
      session := some session
      requestContext := some none }

def authenticationChain (filters : List AuthenticationFilter) : List AuthenticationFilter :=
  filters.insertionSort fun first second => first.order ≤ second.order

def handledRequest (filters : List AuthenticationFilter) : Option InboundRequest := do
  (authenticationChain filters).foldlM (AuthenticationFilter.enter checks heap)
    (← behindSession checks http authorization session)

namespace AuthenticationFilter

def validator : AuthenticationFilter → Option TokenValidator
  | security validator _ | oauth2ResourceServer validator _ => some validator
  | oauth2SessionSecurity => none

def readsToken (filter : AuthenticationFilter) : Bool :=
  filter.validator.isSome && shouldNotFilter checks [] filter.excludePatterns http = some false

def Accepts (filter : AuthenticationFilter) (context : SecurityContext) :
    Prop :=
  filter.readsToken checks http = true ∧ ∃ validator token, filter.validator = some validator ∧
      bearerToken authorization = some token ∧ validator token = .accepted context

def Raises (filter : AuthenticationFilter) : Prop :=
  shouldNotFilter checks [] filter.excludePatterns http = none ∨
    filter.readsToken checks http = true ∧
      ∃ validator token, filter.validator = some validator ∧
        bearerToken authorization = some token ∧ validator token = .raised

end AuthenticationFilter

open AuthenticationFilter

/-- The handler finds one context in both places: that of the session, else one
that a token filter accepts, else the anonymous one. -/
def Prioritized (filters : List AuthenticationFilter) (seen : InboundRequest) :
    Prop :=
  ∃ context, seen.http.securityContext = some context ∧
    seen.requestContext = some (some context) ∧ match storedContext heap session with
      | some stored => context = stored
      | none =>
        (∃ filter ∈ filters, filter.Accepts checks http authorization context) ∨
          context = .anonymous ∧ ∀ filter ∈ filters, ∀ accepted,
            ¬ filter.Accepts checks http authorization accepted

def lastTokenFilter (chain : List AuthenticationFilter) : Option AuthenticationFilter :=
  (chain.filter (readsToken checks http)).getLast?

def KeepsPriority (filters : List AuthenticationFilter) : Prop :=
  ∃ last, lastTokenFilter checks http (authenticationChain filters) = some last ∧
    match storedContext heap session with
    | some stored => last.Accepts checks http authorization stored
    | none =>
      (∃ context, last.Accepts checks http authorization context) ∨ (∃ filter ∈ filters,
          filter.Accepts checks http authorization .anonymous) ∨
        ∀ filter ∈ filters, ∀ context, ¬ filter.Accepts checks http authorization context

variable {checks heap http authorization session}

/-! ## One filter -/

def AuthenticationFilter.Gives (authorization : Option (List Char))
    (filter : AuthenticationFilter) (context : SecurityContext) : Prop :=
  ∃ validator, filter.validator = some validator ∧
    tokenContext validator authorization = some context

theorem gives_cases {filter : AuthenticationFilter} {context : SecurityContext}
    (hreads : filter.readsToken checks http = true)
    (h : filter.Gives authorization context) :
    filter.Accepts checks http authorization context ∨ context = .anonymous ∧ ∀ accepted,
        ¬ filter.Accepts checks http authorization accepted := by
  obtain ⟨validator, hvalidator, hcontext⟩ := h
  unfold tokenContext at hcontext
  cases htoken : bearerToken authorization with
  | none =>
    refine .inr ⟨by simpa [htoken] using hcontext.symm, ?_⟩
    rintro accepted ⟨-, other, token, -, hother, -⟩
    simp [htoken] at hother
  | some token =>
    rw [htoken] at hcontext
    cases hanswer : validator token with
    | accepted accepted =>
      have hsame : accepted = context := by
        simpa [hanswer] using hcontext
      rw [hsame] at hanswer
      exact .inl ⟨hreads, validator, token, hvalidator, htoken, hanswer⟩
    | rejected =>
      refine .inr ⟨by simpa [hanswer] using hcontext.symm, ?_⟩
      rintro accepted ⟨-, other, token', hother, htoken', haccepted⟩
      simp_all
    | raised => simp [hanswer] at hcontext

theorem AuthenticationFilter.Gives.eq_of_accepts {filter : AuthenticationFilter}
    {context accepted : SecurityContext}
    (h : filter.Gives authorization context)
    (haccepts : filter.Accepts checks http authorization accepted) :
    context = accepted := by
  obtain ⟨validator, hvalidator, hcontext⟩ := h
  obtain ⟨-, other, token, hother, htoken, haccepted⟩ := haccepts
  rw [← Option.some.inj (hvalidator.symm.trans hother)] at haccepted
  simpa [tokenContext, htoken, haccepted] using hcontext.symm

theorem isAuthenticated_of_storedContext {stored : SecurityContext}
    (h : storedContext heap session = some stored) :
    stored.isAuthenticated = true := by
  unfold storedContext at h
  split at h
  · split at h
    · next hauthenticated =>
      rwa [← Option.some.inj h]
    · cases h
  · cases h

theorem tokenContext_eq_none_iff {validator : TokenValidator} :
    tokenContext validator authorization = none ↔
      ∃ token, bearerToken authorization = some token ∧ validator token = .raised := by
  unfold tokenContext
  cases htoken : bearerToken authorization with
  | none => simp
  | some token => cases hanswer : validator token <;> simp [hanswer]

theorem raises_iff {filter : AuthenticationFilter} {validator : TokenValidator}
    (hvalidator : filter.validator = some validator)
    (hruns : shouldNotFilter checks [] filter.excludePatterns http = some false) :
    filter.Raises checks http authorization ↔ tokenContext validator authorization = none := by
  simp [Raises, readsToken, hvalidator, hruns, tokenContext_eq_none_iff]

theorem doFilter_of_validator {filter : AuthenticationFilter}
    {validator : TokenValidator} {request : InboundRequest}
    (hvalidator : filter.validator = some validator) :
    filter.doFilter heap request = tokenFilter validator request := by
  cases filter with
  | oauth2SessionSecurity => simp [AuthenticationFilter.validator] at hvalidator
  | security | oauth2ResourceServer =>
    obtain rfl := Option.some.inj hvalidator
    rfl

/-! ## The chain -/

theorem lastTokenFilter_concat {filters : List AuthenticationFilter}
    {filter : AuthenticationFilter} :
    lastTokenFilter checks http (filters ++ [filter]) =
      if filter.readsToken checks http then some filter
      else lastTokenFilter checks http filters := by
  unfold lastTokenFilter
  rw [filter_append]
  split
  · next hreads =>
    rw [filter_cons_of_pos hreads]
    exact List.getLast?_concat
  · next hreads =>
    rw [filter_cons_of_neg hreads, filter_nil, append_nil]

def Shows (heap : Heap SessionValue) (authorization : Option (List Char))
    (session : HttpSession) (seen : InboundRequest) :
    Option AuthenticationFilter → Prop
  | none => seen.requestContext = some none
  | some last => ∃ context, last.Gives authorization context ∧
      seen.requestContext = some (some context) ∧ (seen.http.securityContext = some context ∨
          ∃ stored, storedContext heap session = some stored ∧
            seen.http.securityContext = some stored)

theorem Shows.exists_requestContext {seen : InboundRequest} {last : Option AuthenticationFilter}
    (h : Shows heap authorization session seen last) :
    ∃ current, seen.requestContext = some current := by
  cases last with
  | none => exact ⟨none, h⟩
  | some last =>
    obtain ⟨context, -, hcurrent, -⟩ := h
    exact ⟨some context, hcurrent⟩

structure Reached (checks : NetlocChecks) (heap : Heap SessionValue)
    (http : HttpRequest) (authorization : Option (List Char))
    (session : HttpSession) (filters : List AuthenticationFilter)
    (seen : InboundRequest) : Prop where
  sameHttp : ∃ context, seen.http = { http with securityContext := context }
  sameHeader : seen.authorization = authorization
  sameSession : seen.session = some session
  quiet : ∀ filter ∈ filters, ¬ filter.Raises checks http authorization
  shows : Shows heap authorization session seen (lastTokenFilter checks http filters)

section Step

variable {filters : List AuthenticationFilter} {filter : AuthenticationFilter}
  {seen : InboundRequest}
  (h : Reached checks heap http authorization session filters seen)

include h

theorem Reached.shouldNotFilter_eq :
    shouldNotFilter checks [] filter.excludePatterns seen.http =
      shouldNotFilter checks [] filter.excludePatterns http := by
  obtain ⟨context, heq⟩ := h.sameHttp
  rw [heq]
  rfl

theorem Reached.quiet_concat (hquiet : ¬ filter.Raises checks http authorization) :
    ∀ other ∈ filters ++ [filter], ¬ other.Raises checks http authorization := by
  intro other hother
  rcases mem_append.mp hother with hother | hother
  · exact h.quiet other hother
  · rw [mem_singleton.mp hother]
    exact hquiet

theorem Reached.bypassed
    (hbypassed : shouldNotFilter checks [] filter.excludePatterns http = some true) :
    Reached checks heap http authorization session (filters ++ [filter]) seen where
  sameHttp := h.sameHttp
  sameHeader := h.sameHeader
  sameSession := h.sameSession
  quiet := h.quiet_concat (by simp [Raises, readsToken, hbypassed])
  shows := by
    rw [lastTokenFilter_concat, readsToken, hbypassed]
    simpa using h.shows

theorem Reached.sessionSecurity (hruns : shouldNotFilter checks [] [] http = some false) :
    Reached checks heap http authorization session (filters ++ [.oauth2SessionSecurity])
      (oauth2SessionSecurityFilter heap seen) := by
  have hnot : oauth2SessionSecurity.readsToken checks http = false := rfl
  have hquiet : ∀ other ∈ filters ++ [oauth2SessionSecurity],
      ¬ other.Raises checks http authorization :=
    h.quiet_concat (by
      simp [Raises, hnot, AuthenticationFilter.excludePatterns, hruns])
  obtain ⟨context, hhttp⟩ := h.sameHttp
  have hshows := h.shows
  unfold oauth2SessionSecurityFilter
  rw [h.sameSession, Option.bind_some]
  cases hstored : storedContext heap session with
  | some stored =>
    refine ⟨⟨some stored, ?_⟩, h.sameHeader, h.sameSession, hquiet, ?_⟩
    · simp [InboundRequest.setStateContext, hhttp]
    · rw [lastTokenFilter_concat, hnot, if_neg Bool.false_ne_true]
      cases hlast : lastTokenFilter checks http filters with
      | none =>
        rw [hlast] at hshows
        exact hshows
      | some last =>
        rw [hlast] at hshows
        obtain ⟨context, hgives, hcurrent, -⟩ := hshows
        exact ⟨context, hgives, hcurrent, .inr ⟨stored, hstored, rfl⟩⟩
  | none =>
    cases hcontext : seen.http.securityContext with
    | some context =>
      refine ⟨h.sameHttp, h.sameHeader, h.sameSession, hquiet, ?_⟩
      rw [lastTokenFilter_concat, hnot, if_neg Bool.false_ne_true]
      exact hshows
    | none =>
      refine ⟨⟨some .anonymous, ?_⟩, h.sameHeader, h.sameSession, hquiet, ?_⟩
      · simp [InboundRequest.setStateContext, hhttp]
      · rw [lastTokenFilter_concat, hnot, if_neg Bool.false_ne_true]
        cases hlast : lastTokenFilter checks http filters with
        | none =>
          rw [hlast] at hshows
          exact hshows
        | some last =>
          rw [hlast] at hshows
          obtain ⟨other, -, -, hother⟩ := hshows
          simp [hcontext] at hother

theorem Reached.token {validator : TokenValidator} {context : SecurityContext}
    (hvalidator : filter.validator = some validator)
    (hruns : shouldNotFilter checks [] filter.excludePatterns http = some false)
    (hcontext : tokenContext validator authorization = some context) :
    Reached checks heap http authorization session (filters ++ [filter])
      (seen.setContext context) := by
  have hreads : filter.readsToken checks http = true := by
    simp [readsToken, hvalidator, hruns]
  obtain ⟨before, hhttp⟩ := h.sameHttp
  obtain ⟨current, hcurrent⟩ := h.shows.exists_requestContext
  refine ⟨⟨some context, ?_⟩, h.sameHeader, h.sameSession, h.quiet_concat ?_, ?_⟩
  · simp [InboundRequest.setContext, InboundRequest.setStateContext, hhttp]
  · simp [raises_iff hvalidator hruns, hcontext]
  · rw [lastTokenFilter_concat, if_pos hreads]
    refine ⟨context, ⟨validator, hvalidator, hcontext⟩, ?_, .inl rfl⟩
    simp [InboundRequest.setContext, hcurrent]

theorem Reached.enter (filter : AuthenticationFilter) :
    (∃ next, filter.enter checks heap seen = some next ∧
      Reached checks heap http authorization session (filters ++ [filter]) next) ∨
    filter.enter checks heap seen = none ∧ filter.Raises checks http authorization := by
  unfold AuthenticationFilter.enter
  rw [h.shouldNotFilter_eq]
  cases hpatterns : shouldNotFilter checks [] filter.excludePatterns http with
  | none => exact .inr ⟨rfl, .inl hpatterns⟩
  | some bypassed =>
    cases bypassed with
    | true => exact .inl ⟨seen, rfl, h.bypassed hpatterns⟩
    | false =>
      cases hvalidator : filter.validator with
      | none =>
        cases filter with
        | oauth2SessionSecurity =>
          exact .inl ⟨_, rfl, h.sessionSecurity hpatterns⟩
        | security | oauth2ResourceServer =>
          simp [validator] at hvalidator
      | some validator =>
        have hfilter : filter.doFilter heap seen =
            (tokenContext validator authorization).map seen.setContext := by
          rw [doFilter_of_validator hvalidator, tokenFilter, h.sameHeader]
        cases hcontext : tokenContext validator authorization with
        | none =>
          rw [hcontext] at hfilter
          exact .inr ⟨hfilter, (raises_iff hvalidator hpatterns).mpr hcontext⟩
        | some context =>
          rw [hcontext] at hfilter
          exact .inl ⟨_, hfilter, h.token hvalidator hpatterns hcontext⟩

theorem Reached.run (chain : List AuthenticationFilter) :
    (∃ next, chain.foldlM (AuthenticationFilter.enter checks heap) seen = some next ∧
      Reached checks heap http authorization session (filters ++ chain) next) ∨
    chain.foldlM (AuthenticationFilter.enter checks heap) seen = none ∧
      ∃ filter ∈ chain, filter.Raises checks http authorization := by
  induction chain generalizing filters seen with
  | nil => exact .inl ⟨seen, rfl, by simpa using h⟩
  | cons filter chain ih =>
    rw [foldlM_cons]
    rcases h.enter filter with ⟨next, hnext, hreached⟩ | ⟨hnone, hraises⟩
    · rw [hnext]
      rcases ih hreached with ⟨last, hlast, hreached⟩ | ⟨hnone, other, hother⟩
      · rw [append_assoc] at hreached
        exact .inl ⟨last, hlast, hreached⟩
      · exact .inr ⟨hnone, other, mem_cons_of_mem _ hother.1, hother.2⟩
    · rw [hnone]
      exact .inr ⟨rfl, filter, mem_cons_self, hraises⟩

end Step

/-! ## The contract -/

theorem of_lastTokenFilter {filters : List AuthenticationFilter} {last : AuthenticationFilter}
    (h : lastTokenFilter checks http (authenticationChain filters) = some last) :
    last ∈ filters ∧ last.readsToken checks http = true := by
  have hmem := mem_filter.mp (mem_of_getLast? h)
  exact ⟨(mem_insertionSort _).mp hmem.1, hmem.2⟩

theorem Reached.run_prioritized_iff {filters : List AuthenticationFilter}
    {seen : InboundRequest}
    (h : Reached checks heap http authorization session (authenticationChain filters) seen) :
    Prioritized checks heap http authorization session filters seen ↔
      KeepsPriority checks heap http authorization session filters := by
  have hshows := h.shows
  cases hlast : lastTokenFilter checks http (authenticationChain filters) with
  | none =>
    rw [hlast] at hshows
    constructor
    · rintro ⟨context, -, hcurrent, -⟩
      rw [hshows] at hcurrent
      simp at hcurrent
    · rintro ⟨last, hsome, -⟩
      rw [hlast] at hsome
      cases hsome
  | some last =>
    rw [hlast] at hshows
    obtain ⟨context, hgives, hcurrent, hstate⟩ := hshows
    obtain ⟨hmem, hreads⟩ := of_lastTokenFilter hlast
    have hcases := gives_cases hreads hgives
    constructor
    · rintro ⟨found, hfound, hsame, hpriority⟩
      have hcontext : context = found := by
        simpa [hcurrent] using hsame
      rw [← hcontext] at hpriority
      refine ⟨last, hlast, ?_⟩
      cases hstored : storedContext heap session with
      | some stored =>
        rw [hstored] at hpriority
        rcases hcases with haccepts | ⟨hanonymous, -⟩
        · rw [show context = stored from hpriority] at haccepts
          exact haccepts
        · have hauthenticated := isAuthenticated_of_storedContext hstored
          rw [← show context = stored from hpriority, hanonymous]
            at hauthenticated
          simp [SecurityContext.isAuthenticated, SecurityContext.anonymous]
            at hauthenticated
      | none =>
        rw [hstored] at hpriority
        rcases hcases with haccepts | ⟨hanonymous, -⟩
        · exact .inl ⟨context, haccepts⟩
        · rw [hanonymous] at hpriority
          rcases hpriority with haccepted | ⟨-, hnone⟩
          · exact .inr (.inl haccepted)
          · exact .inr (.inr hnone)
    · rintro ⟨other, hsome, hpriority⟩
      obtain rfl := Option.some.inj (hlast.symm.trans hsome)
      cases hstored : storedContext heap session with
      | some stored =>
        rw [hstored] at hpriority hstate
        have hcontext : context = stored :=
          hgives.eq_of_accepts hpriority
        rw [hcontext] at hcurrent hstate
        have hfound : seen.http.securityContext = some stored := by
          simpa using hstate
        refine ⟨stored, hfound, hcurrent, ?_⟩
        rw [hstored]
      | none =>
        rw [hstored] at hpriority
        have hfound : seen.http.securityContext = some context := by
          simpa [hstored] using hstate
        refine ⟨context, hfound, hcurrent, ?_⟩
        rw [hstored]
        rcases hcases with haccepts | ⟨hanonymous, hrejects⟩
        · exact .inl ⟨last, hmem, haccepts⟩
        · rcases hpriority with ⟨accepted, haccepted⟩ | haccepted | hnone
          · exact absurd haccepted (hrejects accepted)
          · rw [hanonymous]
            exact .inl haccepted
          · exact .inr ⟨hanonymous, hnone⟩

/-- The context which the handler finds has the documented priority exactly when
the handler does not run, or the last token filter which runs accepts the
context of the session, or the session has none and it accepts the token or no
other token filter does. -/
theorem prioritized_iff (checks : NetlocChecks) (heap : Heap SessionValue)
    (http : HttpRequest) (authorization : Option (List Char))
    (session : HttpSession) (filters : List AuthenticationFilter) :
    (∀ seen, handledRequest checks heap http authorization session filters = some seen →
      Prioritized checks heap http authorization session filters seen) ↔
    shouldNotFilter checks [] [] http = none ∨
      (∃ filter ∈ filters, filter.Raises checks http authorization) ∨
        KeepsPriority checks heap http authorization session filters := by
  unfold handledRequest behindSession
  cases hurl : shouldNotFilter checks [] [] http with
  | none => simp
  | some bypassed =>
    have hstart : Reached checks heap http authorization session []
        { http := { http with securityContext := none }
          authorization := authorization
          session := some session
          requestContext := some none } :=
      ⟨⟨none, rfl⟩, rfl, rfl, by simp, rfl⟩
    rcases hstart.run (authenticationChain filters) with
      ⟨seen, hseen, hreached⟩ | ⟨hnone, filter, hfilter, hraises⟩
    · have hquiet : ¬ ∃ filter ∈ filters, filter.Raises checks http authorization := by
        rintro ⟨filter, hfilter, hraises⟩
        exact hreached.quiet filter ((mem_insertionSort _).mpr hfilter) hraises
      simp only [Option.map_some, Option.bind_eq_bind, Option.bind_some,
        hseen, Option.some.injEq, forall_eq', reduceCtorEq, false_or, hquiet]
      exact hreached.run_prioritized_iff
    · have hmem := (mem_insertionSort _).mp hfilter
      simp only [Option.map_some, Option.bind_eq_bind, Option.bind_some,
        hnone, reduceCtorEq, false_implies, implies_true, false_or, true_iff]
      exact .inl ⟨filter, hmem, hraises⟩

def annContext : SecurityContext := { userId := some "ann" }

def annHeap : Heap SessionValue :=
  ⟨fun _ => Dict.empty.set securityContextKey (.context annContext), 1⟩

/-- The resource server filter replaces the context of a login by the anonymous
one. -/
theorem not_prioritized_resourceServer : ¬ ∀ seen,
      handledRequest ⟨fun _ => true, fun _ => true⟩ annHeap
          { scheme := .http, host := ['h'], path := ['/'] } none
          { id := "s", data := 0, isNew := false, modified := false }
          [.oauth2SessionSecurity, .oauth2ResourceServer (fun _ => .rejected) []] = some seen →
        Prioritized ⟨fun _ => true, fun _ => true⟩ annHeap
          { scheme := .http, host := ['h'], path := ['/'] } none
          { id := "s", data := 0, isNew := false, modified := false }
          [.oauth2SessionSecurity, .oauth2ResourceServer (fun _ => .rejected) []] seen := by
  intro h
  have huser : (handledRequest ⟨fun _ => true, fun _ => true⟩ annHeap
      { scheme := .http, host := ['h'], path := ['/'] } none
      { id := "s", data := 0, isNew := false, modified := false }
      [.oauth2SessionSecurity, .oauth2ResourceServer (fun _ => .rejected) []]).map
      (fun seen => seen.http.securityContext.bind (·.userId)) = some none := by
    decide
  obtain ⟨seen, hseen, hnone⟩ := Option.map_eq_some_iff.mp huser
  obtain ⟨context, hcontext, -, hpriority⟩ := h seen hseen
  have hlogin : context = annContext := hpriority
  rw [hcontext, hlogin] at hnone
  cases hnone

end PyFly.Security
