import PyFly.Library.InsertionDict
import PyFly.WebFilters

/-!
# Headers of a response

The filters of an application write their headers into the response which their
`call_next` returns.  An exception which leaves the chain is answered outside
of it.
-/

namespace PyFly.Web

open Library Security List

/-- Header names in lower case, with the value of each. -/
abbrev Headers := Dict String String

structure SecurityHeadersConfig where
  xContentTypeOptions : String := "nosniff"
  xFrameOptions : String := "DENY"
  strictTransportSecurity : String := "max-age=31536000; includeSubDomains"
  xXssProtection : String := "0"
  referrerPolicy : String := "strict-origin-when-cross-origin"
  contentSecurityPolicy : Option String := none
  permissionsPolicy : Option String := none

/-- The headers which the `SecurityHeadersFilter` writes, in its order. -/
def SecurityHeadersConfig.headers (config : SecurityHeadersConfig) : List (String × String) :=
  [("x-content-type-options", config.xContentTypeOptions),
    ("x-frame-options", config.xFrameOptions),
    ("strict-transport-security", config.strictTransportSecurity),
    ("x-xss-protection", config.xXssProtection),
    ("referrer-policy", config.referrerPolicy)] ++
  (config.contentSecurityPolicy.map ("content-security-policy", ·)).toList ++
  (config.permissionsPolicy.map ("permissions-policy", ·)).toList

def transactionIdHeader : String := "x-transaction-id"

/-! ## Filters -/

variable {E β : Type}

/-- What a filter does with a request: its `should_not_filter` is true, it
raises or answers before it calls `call_next`, or it calls `call_next` and
makes something of the response or of the exception. -/
inductive Handling (E : Type)
  | bypassed
  | raises (exception : E)
  | answers (headers : Headers)
  | calls (respond : Headers → Except E Headers) (rescue : E → Except E Headers)

namespace Handling

def outcome (handling : Handling E) (next : Except E Headers) : Except E Headers :=
  match handling with
  | bypassed => next
  | raises exception => .error exception
  | answers headers => .ok headers
  | calls respond rescue =>
    match next with
    | .ok headers => respond headers
    | .error exception => rescue exception

def goesOn : Handling E → Bool
  | bypassed | calls _ _ => true
  | _ => false

end Handling

def transactionIdFilter (id : String) : Handling E :=
  .calls (fun headers => .ok (headers.set transactionIdHeader id)) .error

def requestLoggingFilter : Handling E :=
  .calls .ok .error

/-- The assignments of `SecurityHeadersFilter.do_filter`. -/
def SecurityHeadersConfig.write (config : SecurityHeadersConfig)
    (headers : Headers) : Headers :=
  config.headers.foldl (fun headers pair => headers.set pair.1 pair.2) headers

def securityHeadersFilter (config : SecurityHeadersConfig) : Handling E :=
  .calls (fun headers => .ok (config.write headers)) .error

/-- A request with the value of its `X-Transaction-Id` header, what `uuid4`
would give, what the filter beans do with it, and how the application behind
the chain ends: CORS, Starlette's handling of an `HTTPException`, routing and
the handler. -/
structure Exchange (E β : Type) where
  http : HttpRequest
  transactionId : Option String
  freshId : String
  handlingOf : β → Handling E
  endpoint : Except E Headers
  urlError : E

namespace Exchange

variable (exchange : Exchange E β)

/-- `request.headers.get(TRANSACTION_ID_HEADER) or str(uuid.uuid4())` -/
def txId : String :=
  match exchange.transactionId with
  | none | some "" => exchange.freshId
  | some id => id

def handling (checks : NetlocChecks) (config : SecurityHeadersConfig) :
    ChainFilter β → Handling E
  | .bean item => exchange.handlingOf item
  | builtIn =>
    match shouldNotFilter checks [] [] exchange.http with
    | none => .raises exchange.urlError
    | some true => .bypassed
    | some false =>
      match builtIn with
      | .transactionId => transactionIdFilter exchange.txId
      | .requestLogging => requestLoggingFilter
      | _ => securityHeadersFilter config

end Exchange

/-! ## Responses -/

def chainOutcome (handlings : List (Handling E)) (endpoint : Except E Headers) :
    Except E Headers :=
  handlings.foldr Handling.outcome endpoint

/-- A response with the transaction id of its body, if it is one of the
`global_exception_handler`. -/
structure SentResponse where
  headers : Headers
  errorTransactionId : Option String

def globalExceptionHandler (contentLength transactionId : String) : SentResponse where
  headers := (Dict.empty.set "content-length" contentLength).set
    "content-type" "application/json"
  errorTransactionId := some transactionId

section Application

variable (classOf : β → FilterClass) (registrations : List (Registration β))
  (checks : NetlocChecks) (config : SecurityHeadersConfig)
  (isException : E → Bool) (contentLength : String) (exchange : Exchange E β)

def handlings (filters : List (ChainFilter β)) : List (Handling E) :=
  filters.map (exchange.handling checks config)

/-- `request.state.transaction_id` -/
def storedId (filters : List (ChainFilter β)) : Option String :=
  match filters with
  | [] => none
  | filter :: filters =>
    if (exchange.handling checks config filter).goesOn then
      match filter with
      | .transactionId => some exchange.txId
      | _ => storedId filters
    else none

/-- What the application sends.  The handler for `Exception` runs outside of
the chain and reads `request.url`; nothing else answers an exception there. -/
def sentResponse : Option SentResponse :=
  let filters := createApp classOf registrations
  match chainOutcome (handlings checks config exchange filters)
      exchange.endpoint with
  | .ok headers => some ⟨headers, none⟩
  | .error exception =>
    if isException exception && (exchange.http.urlPath checks).isSome then
      some (globalExceptionHandler contentLength
        ((storedId checks config exchange filters).getD exchange.freshId))
    else none

def Carries (id : Option String) (headers : Headers) : Prop :=
  (∃ stored, id = some stored ∧ headers.get? transactionIdHeader = some stored) ∧
  ∀ pair ∈ config.headers, headers.get? pair.1 = some pair.2

def CarriesHeaders : Prop :=
  ∀ response, sentResponse classOf registrations checks config isException
      contentLength exchange = some response →
    let id := storedId checks config exchange (createApp classOf registrations)
    Carries config id response.headers ∧
      ∀ shown, response.errorTransactionId = some shown → id = some shown

/-- An exception leaves the chain which the `global_exception_handler` does not
answer. -/
def Unanswered : Prop :=
  ∃ exception, chainOutcome (handlings checks config exchange
      (createApp classOf registrations)) exchange.endpoint = .error exception ∧
    (isException exception = false ∨ exchange.http.urlPath checks = none)

/-- All filters before the `TransactionIdFilter` call the rest of the chain. -/
def Entered (outside : List (ChainFilter β)) : Prop :=
  (∀ filter ∈ outside, (exchange.handling checks config filter).goesOn = true) ∧
  (exchange.http.urlPath checks).isSome = true

/-- A response comes from behind the `SecurityHeadersFilter`, and the filters
before it hand on one which has all headers in the end. -/
def Delivered (outside between inside : List (ChainFilter β)) : Prop :=
  let outcome := fun filters =>
    chainOutcome (handlings checks config exchange filters)
  ∃ made kept sent, outcome inside exchange.endpoint = .ok made ∧
    outcome between (.ok (config.write made)) = .ok kept ∧
    outcome outside (.ok (kept.set transactionIdHeader exchange.txId)) =
      .ok sent ∧ Carries config (some exchange.txId) sent

/-- An exception leaves a filter or the handler, and a filter before the
`SecurityHeadersFilter` answers it with a response which has all headers in the
end. -/
def Replaced (outside between inside : List (ChainFilter β)) : Prop :=
  let outcome := fun filters =>
    chainOutcome (handlings checks config exchange filters)
  ∃ exception sent, Carries config (some exchange.txId) sent ∧
    (outcome inside exchange.endpoint = .error exception ∧
        outcome (outside ++ .transactionId :: between) (.error exception) = .ok sent ∨
      outcome (between ++ .securityHeaders :: inside) exchange.endpoint = .error exception ∧
        outcome outside (.error exception) = .ok sent)

end Application

theorem get?_globalExceptionHandler (contentLength transactionId : String) :
    (globalExceptionHandler contentLength transactionId).headers.get?
      transactionIdHeader = none := by
  unfold globalExceptionHandler transactionIdHeader
  rw [Dict.get?_set_of_ne (by decide), Dict.get?_set_of_ne (by decide)]
  rfl

section Chain

variable {classOf : β → FilterClass} {registrations : List (Registration β)}
  {checks : NetlocChecks} {config : SecurityHeadersConfig}
  {exchange : Exchange E β}

@[simp] theorem chainOutcome_append (front back : List (ChainFilter β))
    (endpoint : Except E Headers) :
    chainOutcome (handlings checks config exchange (front ++ back)) endpoint =
      chainOutcome (handlings checks config exchange front)
        (chainOutcome (handlings checks config exchange back) endpoint) := by
  simp [chainOutcome, handlings]

@[simp] theorem chainOutcome_cons (filter : ChainFilter β)
    (filters : List (ChainFilter β)) (endpoint : Except E Headers) :
    chainOutcome (handlings checks config exchange (filter :: filters)) endpoint =
      (exchange.handling checks config filter).outcome
        (chainOutcome (handlings checks config exchange filters) endpoint) :=
  rfl

theorem handling_builtIn (config : SecurityHeadersConfig)
    (hurl : (exchange.http.urlPath checks).isSome = true) :
    exchange.handling checks config .transactionId = transactionIdFilter exchange.txId ∧
      exchange.handling checks config .securityHeaders = securityHeadersFilter config := by
  obtain ⟨path, hpath⟩ := Option.isSome_iff_exists.mp hurl
  simp [Exchange.handling, shouldNotFilter, hpath]

/-- The `TransactionIdFilter` and the `SecurityHeadersFilter` are in the chain,
in this order. -/
theorem exists_split (classOf : β → FilterClass) (registrations : List (Registration β)) :
    ∃ outside between inside, createApp classOf registrations =
        outside ++ .transactionId :: (between ++ .securityHeaders :: inside) ∧
      .transactionId ∉ outside := by
  have hsorted := createApp_sorted classOf registrations
  have hmem : ∀ filter : ChainFilter β, filter = .transactionId ∨ filter = .securityHeaders →
        filter ∈ createApp classOf registrations := by
    intro filter hfilter
    apply (mem_insertionSort _).mpr
    rcases hfilter with rfl | rfl <;> simp
  obtain ⟨outside, rest, hsplit, hnot⟩ :=
    eq_append_cons_of_mem (hmem .transactionId (.inl rfl))
  have hheaders := hmem .securityHeaders (.inr rfl)
  rw [hsplit] at hsorted hheaders
  have hrest : ChainFilter.securityHeaders ∈ rest := by
    rcases mem_append.mp hheaders with hbefore | hafter
    · have hle := (pairwise_append.mp hsorted).2.2 _ hbefore .transactionId mem_cons_self
      simp [ChainFilter.order] at hle
    · simpa using hafter
  obtain ⟨between, inside, rfl⟩ := append_of_mem hrest
  exact ⟨outside, between, inside, hsplit, hnot⟩

theorem goesOn_transactionId : (exchange.handling checks config .transactionId).goesOn =
      (exchange.http.urlPath checks).isSome := by
  cases hurl : exchange.http.urlPath checks <;>
    simp [Exchange.handling, shouldNotFilter, hurl, Handling.goesOn, transactionIdFilter]

theorem storedId_transactionId (filters : List (ChainFilter β)) :
    storedId checks config exchange (.transactionId :: filters) =
      if (exchange.http.urlPath checks).isSome then some exchange.txId
      else none := by
  rw [storedId, goesOn_transactionId]

theorem storedId_cons {filter : ChainFilter β} (filters : List (ChainFilter β))
    (h : filter ≠ .transactionId) :
    storedId checks config exchange (filter :: filters) =
      if (exchange.handling checks config filter).goesOn then
        storedId checks config exchange filters
      else none := by
  cases filter with
  | transactionId => exact absurd rfl h
  | _ => simp [storedId]

variable {outside : List (ChainFilter β)}

theorem storedId_of_entered (h : Entered checks config exchange outside)
    (rest : List (ChainFilter β)) :
    storedId checks config exchange (outside ++ .transactionId :: rest) =
      some exchange.txId := by
  induction outside with
  | nil => rw [nil_append, storedId_transactionId, if_pos h.2]
  | cons filter outside ih =>
    have hrest := ih ⟨fun other hother =>
      h.1 other (mem_cons_of_mem _ hother), h.2⟩
    rw [cons_append]
    by_cases hfilter : filter = .transactionId
    · rw [hfilter, storedId_transactionId, if_pos h.2]
    · rw [storedId_cons _ hfilter, if_pos (h.1 filter mem_cons_self), hrest]

theorem entered_of_storedId {rest : List (ChainFilter β)} {id : String}
    (hnot : .transactionId ∉ outside)
    (h : storedId checks config exchange (outside ++ .transactionId :: rest) = some id) :
    Entered checks config exchange outside ∧ id = exchange.txId := by
  induction outside with
  | nil =>
    rw [nil_append, storedId_transactionId] at h
    split at h
    · next hurl => exact ⟨⟨by simp, hurl⟩, (Option.some.inj h).symm⟩
    · cases h
  | cons filter outside ih =>
    have hfilter : filter ≠ .transactionId :=
      fun heq => hnot (heq ▸ mem_cons_self)
    rw [cons_append, storedId_cons _ hfilter] at h
    split at h
    · next hgoes =>
      obtain ⟨hentered, hid⟩ :=
        ih (fun hmem => hnot (mem_cons_of_mem _ hmem)) h
      refine ⟨⟨?_, hentered.2⟩, hid⟩
      intro other hother
      rcases mem_cons.mp hother with rfl | hother
      · exact hgoes
      · exact hentered.1 other hother
    · cases h

/-- A response which leaves the chain comes from behind the
`SecurityHeadersFilter` or from a filter which answers an exception. -/
theorem delivered_or_replaced_iff {between inside : List (ChainFilter β)}
    (hurl : (exchange.http.urlPath checks).isSome = true) :
    Delivered checks config exchange outside between inside ∨
        Replaced checks config exchange outside between inside ↔
      ∃ sent, chainOutcome (handlings checks config exchange (outside ++ .transactionId ::
            (between ++ .securityHeaders :: inside))) exchange.endpoint =
          .ok sent ∧
        Carries config (some exchange.txId) sent := by
  obtain ⟨htransaction, hsecurity⟩ := handling_builtIn config hurl
  unfold Delivered Replaced
  simp only [chainOutcome_append, chainOutcome_cons, htransaction, hsecurity]
  cases hinside : chainOutcome (handlings checks config exchange inside) exchange.endpoint with
  | error exception =>
    simp only [transactionIdFilter, securityHeadersFilter, Handling.outcome]
    constructor
    · rintro (⟨made, -, -, hmade, -⟩ | ⟨raised, sent, hsent, hend⟩)
      · cases hmade
      · rcases hend with ⟨hraised, hend⟩ | ⟨hraised, hend⟩
        · cases hraised
          exact ⟨sent, hend, hsent⟩
        · rw [hraised]
          exact ⟨sent, hend, hsent⟩
    · rintro ⟨sent, hend, hsent⟩
      exact .inr ⟨exception, sent, hsent, .inl ⟨rfl, hend⟩⟩
  | ok made =>
    simp only [transactionIdFilter, securityHeadersFilter, Handling.outcome]
    cases hbetween : chainOutcome (handlings checks config exchange between)
        (.ok (config.write made)) with
    | error exception =>
      constructor
      · rintro (⟨_, kept, -, hmade, hkept, -⟩ | ⟨raised, sent, hsent, hend⟩)
        · cases hmade
          rw [hbetween] at hkept
          cases hkept
        · rcases hend with ⟨hraised, -⟩ | ⟨hraised, hend⟩
          · cases hraised
          · cases hraised
            exact ⟨sent, hend, hsent⟩
      · rintro ⟨sent, hend, hsent⟩
        exact .inr ⟨exception, sent, hsent, .inr ⟨rfl, hend⟩⟩
    | ok kept =>
      constructor
      · rintro (⟨_, _, sent, hmade, hkept, hend, hsent⟩ | ⟨raised, sent, hsent, hend⟩)
        · cases hmade
          rw [hbetween] at hkept
          cases hkept
          exact ⟨sent, hend, hsent⟩
        · rcases hend with ⟨hraised, -⟩ | ⟨hraised, -⟩
          · cases hraised
          · cases hraised
      · rintro ⟨sent, hend, hsent⟩
        exact .inl ⟨made, kept, sent, rfl, hbetween, hend, hsent⟩

end Chain

section Contract

variable (classOf : β → FilterClass) (registrations : List (Registration β))
  (checks : NetlocChecks) (config : SecurityHeadersConfig)
  (isException : E → Bool) (contentLength : String) (exchange : Exchange E β)

/-- The `global_exception_handler` writes none of the headers. -/
theorem carriesHeaders_iff_sent :
    CarriesHeaders classOf registrations checks config isException contentLength exchange ↔
      Unanswered classOf registrations checks config isException exchange ∨
      ∃ sent, chainOutcome (handlings checks config exchange
          (createApp classOf registrations)) exchange.endpoint = .ok sent ∧
        Carries config (storedId checks config exchange
          (createApp classOf registrations)) sent := by
  unfold CarriesHeaders Unanswered sentResponse
  cases hend : chainOutcome (handlings checks config exchange
      (createApp classOf registrations)) exchange.endpoint with
  | error exception =>
    cases hkind : isException exception with
    | false => simp [hend, hkind]
    | true =>
      cases hurl : exchange.http.urlPath checks with
      | none => simp [hend, hkind]
      | some path =>
        constructor
        · intro h
          obtain ⟨⟨stored, -, hheader⟩, -⟩ :=
            (h _ (by simp only [hend, hkind]; rfl)).1
          rw [get?_globalExceptionHandler] at hheader
          cases hheader
        · rintro (⟨raised, hraised, hkind' | hurl'⟩ | ⟨sent, hsent, -⟩)
          · cases hraised
            rw [hkind] at hkind'
            cases hkind'
          · cases hurl'
          · cases hsent
  | ok sent => simp [hend]

end Contract

end PyFly.Web
