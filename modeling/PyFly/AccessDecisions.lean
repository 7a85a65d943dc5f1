import PyFly.HttpSecurity

/-!
# Access decisions

The rules decide on the path of `request.url`, the router on the path of the
scope.  Both read the same text unless the decoded path or the host holds a
character which ends a component of a URL, or one which `urlsplit` removes.
-/

namespace PyFly.Security

open Library

def firstMatch (rules : List SecurityRule) (path : List Char) : Option AccessRule :=
  (rules.find? fun rule => matchesPath path rule.patterns).map SecurityRule.rule

def AccessRule.needsAuthentication : AccessRule → Bool
  | .permitAll | .denyAll => false
  | _ => true

def AccessRule.grants (context : SecurityContext) : AccessRule → Bool
  | .permitAll => true
  | .denyAll => false
  | .authenticated => context.isAuthenticated
  | .hasRole role => context.isAuthenticated && context.hasRole role
  | .hasAnyRole roles => context.isAuthenticated && context.hasAnyRole roles
  | .hasPermission permission =>
    context.isAuthenticated && context.hasPermission permission

def AccessRule.LacksAuthentication (rule : AccessRule) (context : SecurityContext) : Prop :=
  rule.needsAuthentication = true ∧ context.isAuthenticated = false

structure Enforces (filter : HttpSecurityFilter) (checks : NetlocChecks)
    (repr : String → String) (request : HttpRequest) : Prop where
  passes : filter.doFilter checks repr request = some .callNext ↔
    ∀ rule, firstMatch filter.rules request.path = some rule →
      rule.grants request.context = true
  unauthorized : (∃ response, filter.doFilter checks repr request = some (.problem response) ∧
        response.status = 401) ↔
    ∃ rule, firstMatch filter.rules request.path = some rule ∧
      rule.grants request.context = false ∧ rule.LacksAuthentication request.context
  forbidden : (∃ response, filter.doFilter checks repr request = some (.problem response) ∧
        response.status = 403) ↔
    ∃ rule, firstMatch filter.rules request.path = some rule ∧
      rule.grants request.context = false ∧ ¬ rule.LacksAuthentication request.context

inductive Decision
  | pass
  | unauthorized
  | forbidden
  deriving DecidableEq

def AccessRule.decision (context : SecurityContext) (rule : AccessRule) :
    Decision :=
  if rule.grants context then .pass
  else if rule.needsAuthentication && !context.isAuthenticated then
    .unauthorized
  else .forbidden

def decisionOf (context : SecurityContext) : Option AccessRule → Decision
  | none => .pass
  | some rule => rule.decision context

/-- `request.url` can be split, and the first rules which match its path and
the path of the scope decide alike. -/
def DecidesAlike (rules : List SecurityRule) (checks : NetlocChecks)
    (request : HttpRequest) : Prop :=
  ∃ path, request.urlPath checks = some path ∧
    decisionOf request.context (firstMatch rules path) =
      decisionOf request.context (firstMatch rules request.path)

def FilterAnswer.Carries : FilterAnswer → Decision → Prop
  | .callNext, decision => decision = .pass
  | .problem response, decision =>
    response.status = 401 ∧ decision = .unauthorized ∨
      response.status = 403 ∧ decision = .forbidden

variable {filter : HttpSecurityFilter} {checks : NetlocChecks}
  {repr : String → String} {request : HttpRequest}

theorem FilterAnswer.Carries.unique {answer : FilterAnswer}
    {first second : Decision} (hfirst : answer.Carries first)
    (hsecond : answer.Carries second) : first = second := by
  cases answer with
  | callNext => rw [hfirst, hsecond]
  | problem response =>
    rcases hfirst with ⟨hstatus, rfl⟩ | ⟨hstatus, rfl⟩ <;> simp_all [FilterAnswer.Carries]

theorem requireGranted_carries (context : SecurityContext) (path : List Char)
    (granted : Bool) (detail : String) {rule : AccessRule}
    (hgrants : rule.grants context = (context.isAuthenticated && granted))
    (hneeds : rule.needsAuthentication = true) :
    (requireGranted context path granted detail).Carries (rule.decision context) := by
  unfold requireGranted AccessRule.decision
  rw [hgrants, hneeds]
  cases context.isAuthenticated <;> cases granted <;>
    simp [FilterAnswer.Carries, unauthorizedProblem, forbiddenProblem]

theorem AccessRule.answer_carries (repr : String → String)
    (context : SecurityContext) (path : List Char) (rule : AccessRule) :
    (rule.answer repr context path).Carries (rule.decision context) := by
  cases rule with
  | permitAll => rfl
  | denyAll => exact .inr ⟨rfl, rfl⟩
  | authenticated =>
    unfold AccessRule.answer AccessRule.decision
    cases hauthenticated : context.isAuthenticated <;>
      simp [FilterAnswer.Carries, unauthorizedProblem, AccessRule.grants,
        AccessRule.needsAuthentication, hauthenticated]
  | hasRole role => exact requireGranted_carries context path _ _ rfl rfl
  | hasAnyRole roles => exact requireGranted_carries context path _ _ rfl rfl
  | hasPermission permission =>
    exact requireGranted_carries context path _ _ rfl rfl

theorem answerRules_carries (repr : String → String)
    (context : SecurityContext) (path : List Char)
    (rules : List SecurityRule) :
    (answerRules repr context path rules).Carries
      (decisionOf context (firstMatch rules path)) := by
  induction rules with
  | nil => rfl
  | cons rule rules ih =>
    unfold answerRules firstMatch
    cases hmatches : matchesPath path rule.patterns with
    | true =>
      simpa [hmatches, decisionOf] using rule.rule.answer_carries repr context path
    | false => simpa [hmatches, firstMatch] using ih

/-! ## Decisions on the path of the scope -/

section

variable {context : SecurityContext} {found : Option AccessRule}

theorem decisionOf_eq_pass : decisionOf context found = .pass ↔
    ∀ rule, found = some rule → rule.grants context = true := by
  cases found with
  | none => simp [decisionOf]
  | some rule =>
    simp only [decisionOf, AccessRule.decision, Option.some.injEq, forall_eq']
    split
    · simp_all
    · split <;> simp_all

theorem decisionOf_eq_unauthorized : decisionOf context found = .unauthorized ↔
      ∃ rule, found = some rule ∧ rule.grants context = false ∧
        rule.LacksAuthentication context := by
  cases found with
  | none => simp [decisionOf]
  | some rule =>
    simp only [decisionOf, AccessRule.decision, Option.some.injEq,
      exists_eq_left', AccessRule.LacksAuthentication]
    split
    · simp_all
    · split <;> simp_all

theorem decisionOf_eq_forbidden : decisionOf context found = .forbidden ↔
    ∃ rule, found = some rule ∧ rule.grants context = false ∧
      ¬ rule.LacksAuthentication context := by
  cases found with
  | none => simp [decisionOf]
  | some rule =>
    simp only [decisionOf, AccessRule.decision, Option.some.injEq,
      exists_eq_left', AccessRule.LacksAuthentication]
    split
    · simp_all
    · split <;> simp_all

end

theorem enforces_iff_carries : Enforces filter checks repr request ↔
      ∃ answer, filter.doFilter checks repr request = some answer ∧
        answer.Carries (decisionOf request.context (firstMatch filter.rules request.path)) := by
  constructor
  · intro h
    cases hdecision : decisionOf request.context (firstMatch filter.rules request.path) with
    | pass =>
      have hpasses := h.passes.mpr (decisionOf_eq_pass.mp hdecision)
      exact ⟨.callNext, hpasses, rfl⟩
    | unauthorized =>
      obtain ⟨response, hresponse, hstatus⟩ :=
        h.unauthorized.mpr (decisionOf_eq_unauthorized.mp hdecision)
      exact ⟨.problem response, hresponse, .inl ⟨hstatus, rfl⟩⟩
    | forbidden =>
      obtain ⟨response, hresponse, hstatus⟩ :=
        h.forbidden.mpr (decisionOf_eq_forbidden.mp hdecision)
      exact ⟨.problem response, hresponse, .inr ⟨hstatus, rfl⟩⟩
  · rintro ⟨answer, hanswer, hcarries⟩
    constructor
    · rw [hanswer, ← decisionOf_eq_pass]
      cases answer with
      | callNext => exact iff_of_true rfl hcarries
      | problem response =>
        rcases hcarries with ⟨-, hdecision⟩ | ⟨-, hdecision⟩ <;> simp [hdecision]
    · rw [hanswer, ← decisionOf_eq_unauthorized]
      cases answer with
      | callNext => simp [show _ = Decision.pass from hcarries]
      | problem response =>
        rcases hcarries with ⟨hstatus, hdecision⟩ | ⟨hstatus, hdecision⟩ <;>
          simp [hdecision, hstatus]
    · rw [hanswer, ← decisionOf_eq_forbidden]
      cases answer with
      | callNext => simp [show _ = Decision.pass from hcarries]
      | problem response =>
        rcases hcarries with ⟨hstatus, hdecision⟩ | ⟨hstatus, hdecision⟩ <;>
          simp [hdecision, hstatus]

/-- The filter carries out what the rules decide on the path of
`request.url`. -/
theorem enforces_iff_decidesAlike : Enforces filter checks repr request ↔
      DecidesAlike filter.rules checks request := by
  rw [enforces_iff_carries]
  unfold HttpSecurityFilter.doFilter DecidesAlike
  cases hpath : request.urlPath checks with
  | none => simp
  | some path =>
    have hcarries :=
      answerRules_carries repr request.context path filter.rules
    simp only [Option.bind_eq_bind, Option.bind_some, Option.some.injEq, exists_eq_left']
    constructor
    · exact hcarries.unique
    · intro halike
      rw [← halike]
      exact hcarries

theorem firstMatch_globEscape (path text : List Char) :
    firstMatch [⟨[globEscape text], .denyAll⟩] path =
      if path = text then some .denyAll else none := by
  have hmatches : matchesPath path [globEscape text] = decide (path = text) := by
    rw [Bool.eq_iff_iff]
    simp [matchesPath, fnmatch_globEscape]
  simp only [firstMatch, List.find?_cons, hmatches]
  by_cases hpath : path = text <;> simp [hpath]

theorem decidesAlike_forall_iff : (∀ rules, DecidesAlike rules checks request) ↔
      request.urlPath checks = some request.path := by
  constructor
  · intro hall
    obtain ⟨path, hpath, halike⟩ :=
      hall [⟨[globEscape request.path], .denyAll⟩]
    rw [firstMatch_globEscape, firstMatch_globEscape, if_pos rfl] at halike
    by_cases heq : path = request.path
    · rw [hpath, heq]
    · rw [if_neg heq] at halike
      simp [decisionOf, AccessRule.decision, AccessRule.grants,
        AccessRule.needsAuthentication] at halike
  · intro hpath rules
    exact ⟨request.path, hpath, rfl⟩

/-- A filter enforces its rules on a request exactly when `request.url` can be
split and the first matches on both paths decide alike; all filters do exactly
when both paths are the same. -/
theorem enforces_iff (checks : NetlocChecks) (repr : String → String) (request : HttpRequest) :
    (∀ security : HttpSecurity, Enforces security.build checks repr request ↔
        DecidesAlike security.rules checks request) ∧
    ((∀ security : HttpSecurity, Enforces security.build checks repr request) ↔
      request.urlPath checks = some request.path) := by
  have halike : ∀ security : HttpSecurity, Enforces security.build checks repr request ↔
        DecidesAlike security.rules checks request :=
    fun _ => enforces_iff_decidesAlike
  refine ⟨halike, ?_⟩
  rw [← decidesAlike_forall_iff]
  constructor
  · exact fun hall rules => (halike ⟨rules⟩).mp (hall ⟨rules⟩)
  · exact fun hall security => (halike security).mpr (hall security.rules)

/-- `GET /docs/a%3Fb.pdf` passes a rule which denies `/docs/*.pdf`. -/
theorem not_enforces_question_mark : ¬ Enforces
    ((({} : HttpSecurity).requestMatchers ["/docs/*.pdf".toList]).denyAll).build
    ⟨fun _ => true, fun _ => true⟩ (fun text => "'" ++ text ++ "'")
    { scheme := .http
      host := "h".toList
      path := "/docs/a?b.pdf".toList } := by
  rw [enforces_iff_decidesAlike]
  rintro ⟨path, hpath, halike⟩
  have hurl : HttpRequest.urlPath ⟨.http, "h".toList, "/docs/a?b.pdf".toList,
      [], none⟩ ⟨fun _ => true, fun _ => true⟩ = some "/docs/a".toList := by
    decide
  rw [hurl, Option.some.injEq] at hpath
  subst hpath
  revert halike
  decide

end PyFly.Security
