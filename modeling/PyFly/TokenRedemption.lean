import PyFly.AuthorizationServer
import PyFly.Library.Histories

/-!
# Redeeming refresh tokens

Between the find and the revoke of a refresh grant another call may redeem or
revoke the same token, and the token may expire.  The grant does not notice:
it revokes whatever is left and issues the pair.
-/

namespace PyFly.Security

open Library List

variable {ι : Type}

/-! ## The law -/

def Issued (history : List (ServerEvent ι)) (tokenId : String) (token : TokenData) : Prop :=
  ∃ call, .stored call tokenId token ∈ history

def Redeemable (before : List (ServerEvent ι)) (event : ServerEvent ι) :
    Prop :=
  ∀ call client tokenId now, event = .rotated call client tokenId now →
    (∀ other owner time, .rotated other owner tokenId time ∉ before) ∧
    (∀ other, .revoked other tokenId ∉ before) ∧
    ∀ token, Issued before tokenId token → now ≤ token.exp

def BoundToClient (before : List (ServerEvent ι)) (event : ServerEvent ι) :
    Prop :=
  ∀ call client tokenId now, event = .rotated call client tokenId now →
    ∃ token, Issued before tokenId token ∧ token.clientId = client

def CarriesScope (config : ServerConfig) (before : List (ServerEvent ι))
    (event : ServerEvent ι) : Prop :=
  ∀ call redeemed payload response, event = .granted call redeemed payload response →
      response = tokenResponse config payload response.refreshToken ∧
      ∃ token, .stored call response.refreshToken token ∈ before ∧ payload.scope = token.scope ∧
        ∀ tokenId, redeemed = some tokenId →
          (∃ client now, .rotated call client tokenId now ∈ before) ∧
          ∃ old, Issued before tokenId old ∧ token.scope = old.scope ∧
            token.clientId = old.clientId

def ServerEvent.call : ServerEvent ι → ι
  | .failed call _ | .dropped call _ _ | .rotated call _ _ _
  | .stored call _ _ | .granted call _ _ _ | .revoked call _ => call

def Benign (history : List (ServerEvent ι)) : ServerEvent ι → Prop
  | .failed _ _ => True
  | .dropped _ tokenId now =>
    ∃ token, Issued history tokenId token ∧ token.exp < now
  | _ => False

def FailsHarmlessly (history : List (ServerEvent ι)) : Prop :=
  ∀ call error, .failed call error ∈ history →
    ∀ event ∈ history, event.call = call → Benign history event

structure Redeems (config : ServerConfig)
    (execution : Execution (ServerRun ι) (ServerEvent ι)) : Prop where
  issuedOnce : ∀ tokenId token other, Issued execution.trace tokenId token →
    Issued execution.trace tokenId other → token = other
  redeemable : AtEach Redeemable execution.trace
  bound : AtEach BoundToClient execution.trace
  scope : AtEach (CarriesScope config) execution.trace
  harmless : FailsHarmlessly execution.trace

/-- When a grant revokes the token which it has found, the store still holds
the token and it has not expired. -/
def StillValid (run : ServerRun ι) (pick : ServerPick ι) : Prop :=
  ∀ call now newId registration tokenId token, pick = .next call now newId → run.clock ≤ now →
      run.calls call = .rotating registration tokenId token →
        run.tokens.get? tokenId ≠ none ∧ now ≤ token.exp

/-! ## The token store and the history -/

def Retired (history : List (ServerEvent ι)) (tokenId : String) : Prop :=
  (∃ call client now, .rotated call client tokenId now ∈ history) ∨
    ∃ call, .revoked call tokenId ∈ history

structure Tokens (tokens : Dict String TokenData) (known : List String)
    (clock : ℤ) (history : List (ServerEvent ι)) : Prop where
  seen : ∀ tokenId token, Issued history tokenId token → tokenId ∈ known
  unique : ∀ tokenId token other, Issued history tokenId token →
    Issued history tokenId other → token = other
  present : ∀ tokenId token, tokens.get? tokenId = some token → Issued history tokenId token
  absent : ∀ tokenId token, Issued history tokenId token →
    tokens.get? tokenId = none → Retired history tokenId ∨ token.exp < clock
  retired : ∀ tokenId, Retired history tokenId → tokens.get? tokenId = none ∧ tokenId ∈ known

variable {history events : List (ServerEvent ι)} {tokenId : String} {token : TokenData}

theorem Issued.append (hissued : Issued history tokenId token) (events : List (ServerEvent ι)) :
    Issued (history ++ events) tokenId token := by
  obtain ⟨call, hmem⟩ := hissued
  exact ⟨call, mem_append_left _ hmem⟩

theorem Retired.append (hretired : Retired history tokenId)
    (events : List (ServerEvent ι)) : Retired (history ++ events) tokenId := by
  obtain ⟨call, client, now, hmem⟩ | ⟨call, hmem⟩ := hretired
  · exact .inl ⟨call, client, now, mem_append_left _ hmem⟩
  · exact .inr ⟨call, mem_append_left _ hmem⟩

theorem issued_append_iff (hevents : ∀ event ∈ events, ∀ call tokenId token,
      event ≠ .stored call tokenId token) :
    Issued (history ++ events) tokenId token ↔ Issued history tokenId token := by
  refine ⟨?_, fun hissued => hissued.append events⟩
  rintro ⟨call, hmem⟩
  rcases mem_append.mp hmem with hold | hnew
  · exact ⟨call, hold⟩
  · exact absurd rfl (hevents _ hnew call tokenId token)

theorem retired_append_iff (hrotated : ∀ event ∈ events, ∀ call client tokenId now,
      event ≠ .rotated call client tokenId now)
    (hrevoked : ∀ event ∈ events, ∀ call tokenId, event ≠ .revoked call tokenId) :
    Retired (history ++ events) tokenId ↔ Retired history tokenId := by
  refine ⟨?_, fun hretired => hretired.append events⟩
  rintro (⟨call, client, now, hmem⟩ | ⟨call, hmem⟩)
  · rcases mem_append.mp hmem with hold | hnew
    · exact .inl ⟨call, client, now, hold⟩
    · exact absurd rfl (hrotated _ hnew call client tokenId now)
  · rcases mem_append.mp hmem with hold | hnew
    · exact .inr ⟨call, hold⟩
    · exact absurd rfl (hrevoked _ hnew call tokenId)

namespace Tokens

variable {tokens : Dict String TokenData} {known known' : List String} {clock now : ℤ}

theorem keep (htokens : Tokens tokens known clock history)
    (hknown : ∀ tokenId ∈ known, tokenId ∈ known') (hclock : clock ≤ now)
    (hevents : ∀ event ∈ events, ∃ call error, event = .failed call error) :
    Tokens tokens known' now (history ++ events) := by
  have hissued : ∀ {tokenId token}, Issued (history ++ events) tokenId token ↔
      Issued history tokenId token := by
    intro tokenId token
    apply issued_append_iff
    intro event hmem
    obtain ⟨call, error, rfl⟩ := hevents event hmem
    exact fun _ _ => nofun
  have hretired : ∀ {tokenId}, Retired (history ++ events) tokenId ↔
      Retired history tokenId := by
    intro tokenId
    apply retired_append_iff
    · intro event hmem
      obtain ⟨call, error, rfl⟩ := hevents event hmem
      exact fun _ _ _ => nofun
    · intro event hmem
      obtain ⟨call, error, rfl⟩ := hevents event hmem
      exact fun _ => nofun
  constructor
  · exact fun tokenId token hmem =>
      hknown _ (htokens.seen tokenId token (hissued.mp hmem))
  · exact fun tokenId token other hone htwo =>
      htokens.unique tokenId token other (hissued.mp hone) (hissued.mp htwo)
  · exact fun tokenId token hget =>
      hissued.mpr (htokens.present tokenId token hget)
  · intro tokenId token hmem hnone
    rcases htokens.absent tokenId token (hissued.mp hmem) hnone with
      hgone | hexpired
    · exact .inl (hretired.mpr hgone)
    · exact .inr (Int.lt_of_lt_of_le hexpired hclock)
  · intro tokenId hgone
    obtain ⟨hnone, hmem⟩ := htokens.retired tokenId (hretired.mp hgone)
    exact ⟨hnone, hknown tokenId hmem⟩

theorem erase (htokens : Tokens tokens known clock history) {tokenId : String}
    (hknown : tokenId ∈ known) (hclock : clock ≤ now)
    (hissued : ∀ event ∈ events, ∀ call other token, event ≠ .stored call other token)
    (hrotated : ∀ event ∈ events, ∀ call client other time,
      event = .rotated call client other time → other = tokenId)
    (hrevoked : ∀ event ∈ events, ∀ call other, event = .revoked call other → other = tokenId)
    (habsent : ∀ token, Issued history tokenId token →
      Retired (history ++ events) tokenId ∨ token.exp < now) :
    Tokens (tokens.erase tokenId) known now (history ++ events) := by
  have hretired : ∀ other, Retired (history ++ events) other →
      other = tokenId ∨ Retired history other := by
    rintro other (⟨call, client, time, hmem⟩ | ⟨call, hmem⟩)
    · rcases mem_append.mp hmem with hold | hnew
      · exact .inr (.inl ⟨call, client, time, hold⟩)
      · exact .inl (hrotated _ hnew call client other time rfl)
    · rcases mem_append.mp hmem with hold | hnew
      · exact .inr (.inr ⟨call, hold⟩)
      · exact .inl (hrevoked _ hnew call other rfl)
  have hiff : ∀ {other token}, Issued (history ++ events) other token ↔
      Issued history other token := issued_append_iff hissued
  constructor
  · exact fun other token hmem => htokens.seen other token (hiff.mp hmem)
  · exact fun other token token' hone htwo =>
      htokens.unique other token token' (hiff.mp hone) (hiff.mp htwo)
  · intro other token hget
    rw [Dict.get?_erase] at hget
    split at hget
    · cases hget
    · exact hiff.mpr (htokens.present other token hget)
  · intro other token hmem hnone
    rw [Dict.get?_erase] at hnone
    split at hnone
    · next hsame =>
      subst hsame
      exact habsent token (hiff.mp hmem)
    · rcases htokens.absent other token (hiff.mp hmem) hnone with
        hgone | hexpired
      · exact .inl (hgone.append events)
      · exact .inr (Int.lt_of_lt_of_le hexpired hclock)
  · intro other hgone
    rw [Dict.get?_erase]
    rcases hretired other hgone with rfl | hold
    · exact ⟨if_pos rfl, hknown⟩
    · obtain ⟨hnone, hmem⟩ := htokens.retired other hold
      exact ⟨by rw [hnone, ite_self], hmem⟩

theorem set (htokens : Tokens tokens known clock history) {newId : String}
    (hnew : newId ∉ known) (hclock : clock ≤ now) (call : ι)
    (token : TokenData) {redeemed : Option String} {payload : AccessPayload}
    {response : TokenResponse} :
    Tokens (tokens.set newId token) (newId :: known) now (history ++ [.stored call newId token,
        .granted call redeemed payload response]) := by
  have hissued : ∀ {tokenId other}, Issued (history ++
      [.stored call newId token, .granted call redeemed payload response]) tokenId other ↔
      tokenId = newId ∧ other = token ∨ Issued history tokenId other := by
    intro tokenId other
    simp [Issued, or_comm, exists_or]
  have hretired : ∀ {tokenId}, Retired (history ++
      [.stored call newId token, .granted call redeemed payload response])
        tokenId ↔ Retired history tokenId := by
    intro tokenId
    apply retired_append_iff <;> simp
  have hfree : ∀ other, ¬ Issued history newId other :=
    fun other hmem => hnew (htokens.seen newId other hmem)
  constructor
  · intro tokenId other hmem
    rcases hissued.mp hmem with ⟨rfl, -⟩ | hold
    · exact mem_cons_self
    · exact mem_cons_of_mem _ (htokens.seen tokenId other hold)
  · intro tokenId one two hone htwo
    rcases hissued.mp hone with ⟨rfl, rfl⟩ | hfirst
    · rcases hissued.mp htwo with ⟨-, rfl⟩ | hsecond
      · rfl
      · exact absurd hsecond (hfree two)
    · rcases hissued.mp htwo with ⟨rfl, -⟩ | hsecond
      · exact absurd hfirst (hfree one)
      · exact htokens.unique tokenId one two hfirst hsecond
  · intro tokenId other hget
    by_cases hsame : tokenId = newId
    · rw [hsame, Dict.get?_set_self] at hget
      exact hissued.mpr (.inl ⟨hsame, (Option.some.inj hget).symm⟩)
    · rw [Dict.get?_set_of_ne hsame] at hget
      exact hissued.mpr (.inr (htokens.present tokenId other hget))
  · intro tokenId other hmem hnone
    by_cases hsame : tokenId = newId
    · rw [hsame, Dict.get?_set_self] at hnone
      cases hnone
    · rw [Dict.get?_set_of_ne hsame] at hnone
      rcases hissued.mp hmem with ⟨hid, -⟩ | hold
      · exact absurd hid hsame
      · rcases htokens.absent tokenId other hold hnone with hgone | hexpired
        · exact .inl (hretired.mpr hgone)
        · exact .inr (Int.lt_of_lt_of_le hexpired hclock)
  · intro tokenId hgone
    obtain ⟨hnone, hmem⟩ := htokens.retired tokenId (hretired.mp hgone)
    have hsame : tokenId ≠ newId := by
      rintro rfl
      exact hnew hmem
    rw [Dict.get?_set_of_ne hsame]
    exact ⟨hnone, mem_cons_of_mem _ hmem⟩

end Tokens

/-! ## The calls and the history -/

def Untouched (history : List (ServerEvent ι)) (call : ι) : Prop :=
  ∀ event ∈ history, event.call ≠ call

def Unfailed (history : List (ServerEvent ι)) (call : ι) : Prop :=
  ∀ error, .failed call error ∉ history

def Justified (known : List String) (clock : ℤ)
    (history : List (ServerEvent ι)) (call : ι) : CallPhase → Prop
  | .idle => Untouched history call
  | .finding _ tokenId => tokenId ∈ known ∧ Untouched history call
  | .checking _ tokenId found =>
    (∀ token, found = some token → Issued history tokenId token) ∧ Untouched history call
  | .dropping tokenId =>
    (∃ token, Issued history tokenId token ∧ token.exp < clock) ∧ Untouched history call
  | .rotating registration tokenId token =>
    Issued history tokenId token ∧
      token.clientId = registration.clientId ∧ Untouched history call
  | .issuing registration tokenId token =>
    Issued history tokenId token ∧ token.clientId = registration.clientId ∧
      (∃ client now, .rotated call client tokenId now ∈ history) ∧
      Unfailed history call
  | .storing redeemed payload token =>
    payload.scope = token.scope ∧ (∀ tokenId, redeemed = some tokenId →
        (∃ client now, .rotated call client tokenId now ∈ history) ∧
        ∃ old, Issued history tokenId old ∧ token.scope = old.scope ∧
          token.clientId = old.clientId) ∧
      Unfailed history call
  | .revoking tokenId => tokenId ∈ known ∧ Untouched history call
  | .done => True

theorem Untouched.append {call : ι} (huntouched : Untouched history call)
    (hevents : Untouched events call) : Untouched (history ++ events) call :=
  forall_mem_append.mpr ⟨huntouched, hevents⟩

theorem Untouched.unfailed {call : ι} (huntouched : Untouched history call) :
    Unfailed history call :=
  fun _ hmem => huntouched _ hmem rfl

theorem Unfailed.append {call : ι} (hunfailed : Unfailed history call)
    (hevents : Unfailed events call) : Unfailed (history ++ events) call :=
  fun error hmem =>
    (mem_append.mp hmem).elim (hunfailed error) (hevents error)

theorem Justified.mono {known known' : List String} {clock now : ℤ} {call : ι}
    {phase : CallPhase} (hjustified : Justified known clock history call phase)
    (hknown : ∀ tokenId ∈ known, tokenId ∈ known') (hclock : clock ≤ now)
    (hevents : Untouched events call) :
    Justified known' now (history ++ events) call phase := by
  cases phase with
  | idle => exact Untouched.append hjustified hevents
  | finding registration tokenId =>
    obtain ⟨hmem, huntouched⟩ := hjustified
    exact ⟨hknown tokenId hmem, huntouched.append hevents⟩
  | checking registration tokenId found =>
    obtain ⟨hfound, huntouched⟩ := hjustified
    exact ⟨fun token hsome => (hfound token hsome).append events, huntouched.append hevents⟩
  | dropping tokenId =>
    obtain ⟨⟨token, hissued, hexpired⟩, huntouched⟩ := hjustified
    exact ⟨⟨token, hissued.append events,
      Int.lt_of_lt_of_le hexpired hclock⟩, huntouched.append hevents⟩
  | rotating registration tokenId token =>
    obtain ⟨hissued, hclient, huntouched⟩ := hjustified
    exact ⟨hissued.append events, hclient, huntouched.append hevents⟩
  | issuing registration tokenId token =>
    obtain ⟨hissued, hclient, ⟨client, time, hmem⟩, hunfailed⟩ := hjustified
    exact ⟨hissued.append events, hclient, ⟨client, time, mem_append_left _ hmem⟩,
      hunfailed.append hevents.unfailed⟩
  | storing redeemed payload token =>
    obtain ⟨hscope, hredeemed, hunfailed⟩ := hjustified
    refine ⟨hscope, fun tokenId hsome => ?_, hunfailed.append hevents.unfailed⟩
    obtain ⟨⟨client, time, hmem⟩, old, hissued, hsame⟩ :=
      hredeemed tokenId hsome
    exact ⟨⟨client, time, mem_append_left _ hmem⟩, old, hissued.append events, hsame⟩
  | revoking tokenId =>
    obtain ⟨hmem, huntouched⟩ := hjustified
    exact ⟨hknown tokenId hmem, huntouched.append hevents⟩
  | done => trivial

theorem Justified.unfailed {known : List String} {clock : ℤ} {call : ι}
    {phase : CallPhase} (hjustified : Justified known clock history call phase)
    (hphase : phase ≠ .done) : Unfailed history call := by
  cases phase with
  | idle => exact Untouched.unfailed hjustified
  | finding _ _ | checking _ _ _ | dropping _ | revoking _ =>
    exact hjustified.2.unfailed
  | rotating _ _ _ => exact hjustified.2.2.unfailed
  | issuing _ _ _ => exact hjustified.2.2.2
  | storing _ _ _ => exact hjustified.2.2
  | done => exact absurd rfl hphase

structure Ledger (config : ServerConfig)
    (execution : Execution (ServerRun ι) (ServerEvent ι)) : Prop where
  tokens : Tokens execution.state.tokens execution.state.known
    execution.state.clock execution.trace
  calls : ∀ call, Justified execution.state.known execution.state.clock
    execution.trace call (execution.state.calls call)
  bound : AtEach BoundToClient execution.trace
  scope : AtEach (CarriesScope config) execution.trace
  harmless : FailsHarmlessly execution.trace

theorem Benign.append {event : ServerEvent ι} (hbenign : Benign history event)
    (events : List (ServerEvent ι)) : Benign (history ++ events) event := by
  cases event with
  | dropped call tokenId now =>
    obtain ⟨token, hissued, hexpired⟩ := hbenign
    exact ⟨token, hissued.append events, hexpired⟩
  | failed call error => trivial
  | _ => exact hbenign.elim

theorem FailsHarmlessly.append {call : ι} (hharmless : FailsHarmlessly history)
    (hcall : ∀ event ∈ events, event.call = call)
    (hunfailed : Unfailed history call)
    (hfails : (∃ error, .failed call error ∈ events) → Untouched history call ∧
        ∀ event ∈ events, Benign (history ++ events) event) :
    FailsHarmlessly (history ++ events) := by
  intro other error hfailed event hmem hother
  rcases mem_append.mp hfailed with hold | hnew
  · rcases mem_append.mp hmem with hpast | hlater
    · exact (hharmless other error hold event hpast hother).append events
    · rw [← hother, hcall event hlater] at hold
      exact absurd hold (hunfailed error)
  · obtain rfl : other = call := hcall _ hnew
    obtain ⟨huntouched, hbenign⟩ := hfails ⟨error, hnew⟩
    rcases mem_append.mp hmem with hpast | hlater
    · exact absurd hother (huntouched event hpast)
    · exact hbenign event hlater

/-! ## Every step -/

variable [DecidableEq ι] {config : ServerConfig} {run next : ServerRun ι}
  {call : ι} {phase : CallPhase} {now : ℤ}

theorem Ledger.of_step (hledger : Ledger config ⟨run, history⟩)
    (hbefore : run.calls call ≠ .done) (hclock : run.clock ≤ next.clock)
    (hknown : ∀ tokenId ∈ run.known, tokenId ∈ next.known)
    (hcalls : next.calls = Function.update run.calls call phase)
    (hcall : ∀ event ∈ events, event.call = call)
    (htokens : Tokens next.tokens next.known next.clock (history ++ events))
    (hphase : Justified next.known next.clock (history ++ events) call phase)
    (hbound : AtEach BoundToClient (history ++ events))
    (hscope : AtEach (CarriesScope config) (history ++ events))
    (hfails : (∃ error, .failed call error ∈ events) → Untouched history call ∧
        ∀ event ∈ events, Benign (history ++ events) event) :
    Ledger config ⟨next, history ++ events⟩ := by
  refine ⟨htokens, ?_, hbound, hscope, ?_⟩
  · intro other
    simp only [hcalls]
    by_cases hsame : other = call
    · rw [hsame, Function.update_self]
      exact hphase
    · rw [Function.update_of_ne hsame]
      exact (hledger.calls other).mono hknown hclock fun event hmem heq =>
        hsame (heq.symm.trans (hcall event hmem))
  · exact hledger.harmless.append hcall ((hledger.calls call).unfailed hbefore) hfails

omit [DecidableEq ι] in
theorem Ledger.quiet (hledger : Ledger config ⟨run, history⟩) (events : List (ServerEvent ι))
    (hrotated : ∀ event ∈ events, ∀ call client tokenId now,
      event ≠ .rotated call client tokenId now)
    (hgranted : ∀ event ∈ events, ∀ call redeemed payload response,
      event ≠ .granted call redeemed payload response) :
    AtEach BoundToClient (history ++ events) ∧
      AtEach (CarriesScope config) (history ++ events) := by
  constructor
  · apply hledger.bound.append
    intro event hmem before call client tokenId now heq
    exact absurd heq (hrotated event hmem call client tokenId now)
  · apply hledger.scope.append
    intro event hmem before call redeemed payload response heq
    exact absurd heq (hgranted event hmem call redeemed payload response)

theorem Ledger.attempt (hledger : Ledger config ⟨run, history⟩)
    {known : List String} {result : Except GrantError CallPhase}
    (hbefore : run.calls call ≠ .done) (hclock : run.clock ≤ now)
    (hknown : ∀ tokenId ∈ run.known, tokenId ∈ known)
    (huntouched : Untouched history call)
    (hresult : ∀ phase, result = .ok phase → Justified known now history call phase) :
    Ledger config ⟨({ run with known := known }.attempt call result now).1,
        history ++ ({ run with known := known }.attempt call result now).2⟩ := by
  cases result with
  | ok phase =>
    obtain ⟨hbound, hscope⟩ := hledger.quiet []
      (fun _ => nofun) (fun _ => nofun)
    refine hledger.of_step hbefore hclock hknown rfl
      (fun _ => nofun) ?_ ?_ hbound hscope nofun
    · exact hledger.tokens.keep hknown hclock fun _ => nofun
    · exact (hresult phase rfl).mono (fun _ hmem => hmem) (Int.le_refl _) fun _ => nofun
  | error error =>
    have hevents : ∀ event ∈ ([.failed call error] : List (ServerEvent ι)),
        event = .failed call error := by simp
    obtain ⟨hbound, hscope⟩ := hledger.quiet [.failed call error] (by simp) (by simp)
    refine hledger.of_step hbefore hclock hknown rfl ?_ ?_ trivial hbound hscope ?_
    · intro event hmem
      rw [hevents event hmem]
      rfl
    · exact hledger.tokens.keep hknown hclock fun event hmem =>
        ⟨call, error, hevents event hmem⟩
    · refine fun _ => ⟨huntouched, fun event hmem => ?_⟩
      rw [hevents event hmem]
      trivial

omit [DecidableEq ι] in
theorem justified_startCall {known : List String} {arguments : ServerCall}
    (huntouched : Untouched history call)
    (hknown : ∀ tokenId, arguments.presented = some tokenId →
      tokenId ∈ known) (hstart : startCall config arguments now = .ok phase) :
    Justified known now history call phase := by
  cases arguments with
  | token grantType clientId clientSecret scope refreshToken =>
    simp only [startCall, startToken] at hstart
    split at hstart
    · cases hstart
    · split at hstart
      · cases hstart
      · split at hstart
        · cases hstart
          exact ⟨rfl, nofun, huntouched.unfailed⟩
        · split at hstart
          · cases refreshToken with
            | none => cases hstart
            | some tokenId =>
              cases hstart
              exact ⟨hknown tokenId rfl, huntouched⟩
          · cases hstart
  | revoke tokenId =>
    cases hstart
    exact ⟨hknown tokenId rfl, huntouched⟩

omit [DecidableEq ι] in
theorem justified_checkToken {known : List String}
    {registration : ClientRegistration} {found : Option TokenData}
    (huntouched : Untouched history call)
    (hfound : ∀ token, found = some token → Issued history tokenId token)
    (hcheck : checkToken registration tokenId found now = .ok phase) :
    Justified known now history call phase := by
  unfold checkToken at hcheck
  split at hcheck
  · cases hcheck
  · next token =>
    split at hcheck
    · cases hcheck
    · next hclient =>
      split at hcheck
      · next hexpired =>
        cases hcheck
        exact ⟨⟨token, hfound token rfl, hexpired⟩, huntouched⟩
      · cases hcheck
        exact ⟨hfound token rfl, of_not_not hclient, huntouched⟩

namespace Ledger

theorem start (hledger : Ledger config ⟨run, history⟩)
    (arguments : ServerCall) (hclock : run.clock ≤ now)
    (hidle : run.calls call = .idle) :
    Ledger config ⟨({ run with known := arguments.presented.toList ++ run.known }.attempt
          call (startCall config arguments now) now).1,
        history ++ ({ run with known := arguments.presented.toList ++
              run.known }.attempt
            call (startCall config arguments now) now).2⟩ := by
  have huntouched : Untouched history call := by
    have hjustified := hledger.calls call
    rwa [hidle] at hjustified
  apply hledger.attempt (by simp [hidle]) hclock
    (fun _ hmem => mem_append_right _ hmem) huntouched
  intro phase hstart
  apply justified_startCall huntouched _ hstart
  intro tokenId hpresented
  simp [hpresented]

variable {registration : ClientRegistration}

theorem finding (hledger : Ledger config ⟨run, history⟩) (hclock : run.clock ≤ now)
    (hphase : run.calls call = .finding registration tokenId) :
    Ledger config ⟨run.move call (.checking registration tokenId (run.tokens.get? tokenId)) now,
      history ++ []⟩ := by
  have hjustified := hledger.calls call
  rw [hphase] at hjustified
  obtain ⟨hbound, hscope⟩ := hledger.quiet [] (fun _ => nofun) (fun _ => nofun)
  refine hledger.of_step (by simp [hphase]) hclock (fun _ hmem => hmem) rfl
    (fun _ => nofun) ?_ ?_ hbound hscope nofun
  · exact hledger.tokens.keep (fun _ hmem => hmem) hclock fun _ => nofun
  · rw [append_nil]
    exact ⟨hledger.tokens.present tokenId, hjustified.2⟩

theorem checking (hledger : Ledger config ⟨run, history⟩)
    {found : Option TokenData} (hclock : run.clock ≤ now)
    (hphase : run.calls call = .checking registration tokenId found) :
    Ledger config ⟨(run.attempt call (checkToken registration tokenId found now) now).1,
        history ++ (run.attempt call (checkToken registration tokenId found now) now).2⟩ := by
  have hjustified := hledger.calls call
  rw [hphase] at hjustified
  obtain ⟨hfound, huntouched⟩ := hjustified
  apply hledger.attempt (by simp [hphase]) hclock (fun _ hmem => hmem)
    huntouched
  exact fun phase hcheck => justified_checkToken huntouched hfound hcheck

theorem dropping (hledger : Ledger config ⟨run, history⟩) (hclock : run.clock ≤ now)
    (hphase : run.calls call = .dropping tokenId) :
    Ledger config ⟨{ run.move call .done now with
        tokens := run.tokens.erase tokenId },
      history ++ [.dropped call tokenId now, .failed call .refreshTokenExpired]⟩ := by
  have hjustified := hledger.calls call
  rw [hphase] at hjustified
  obtain ⟨⟨token, hissued, hexpired⟩, huntouched⟩ := hjustified
  have hlate := Int.lt_of_lt_of_le hexpired hclock
  obtain ⟨hbound, hscope⟩ := hledger.quiet
    [.dropped call tokenId now, .failed call .refreshTokenExpired]
    (by simp) (by simp)
  refine hledger.of_step (by simp [hphase]) hclock (fun _ hmem => hmem) rfl
    ?_ ?_ trivial hbound hscope ?_
  · simp [ServerEvent.call]
  · refine hledger.tokens.erase (hledger.tokens.seen tokenId token hissued)
      hclock (by simp) (by simp) (by simp) fun other hother => ?_
    rw [hledger.tokens.unique tokenId other token hother hissued]
    exact .inr hlate
  · refine fun _ => ⟨huntouched, ?_⟩
    simp only [mem_cons, not_mem_nil, or_false, forall_eq_or_imp, forall_eq]
    exact ⟨⟨token, hissued.append _, hlate⟩, trivial⟩

theorem rotating (hledger : Ledger config ⟨run, history⟩) (hclock : run.clock ≤ now)
    (hphase : run.calls call = .rotating registration tokenId token) :
    Ledger config ⟨{ run.move call (.issuing registration tokenId token) now with
        tokens := run.tokens.erase tokenId },
      history ++ [.rotated call registration.clientId tokenId now]⟩ := by
  have hjustified := hledger.calls call
  rw [hphase] at hjustified
  obtain ⟨hissued, hclient, huntouched⟩ := hjustified
  refine hledger.of_step (by simp [hphase]) hclock (fun _ hmem => hmem) rfl
    ?_ ?_ ?_ ?_ ?_ (by simp)
  · simp [ServerEvent.call]
  · refine hledger.tokens.erase (hledger.tokens.seen tokenId token hissued)
      hclock (by simp) ?_ (by simp) ?_
    · intro event hmem other client id time heq
      rw [mem_singleton.mp hmem] at heq
      exact (ServerEvent.rotated.inj heq).2.2.1.symm
    · exact fun _ _ => .inl (.inl ⟨call, registration.clientId, now, by simp⟩)
  · exact ⟨hissued.append _, hclient, ⟨registration.clientId, now, by simp⟩,
      huntouched.unfailed.append fun _ => by simp⟩
  · apply hledger.bound.concat
    intro other client id time hevent
    obtain ⟨-, rfl, rfl, -⟩ := ServerEvent.rotated.inj hevent
    exact ⟨token, hissued, hclient⟩
  · exact hledger.scope.concat fun _ _ _ _ => nofun

theorem issuing (hledger : Ledger config ⟨run, history⟩) (hclock : run.clock ≤ now)
    (hphase : run.calls call = .issuing registration tokenId token) :
    Ledger config ⟨run.move call (issue config (some tokenId) registration token.scope now) now,
      history ++ []⟩ := by
  have hjustified := hledger.calls call
  rw [hphase] at hjustified
  obtain ⟨hissued, hclient, hrotated, hunfailed⟩ := hjustified
  obtain ⟨hbound, hscope⟩ := hledger.quiet [] (fun _ => nofun) (fun _ => nofun)
  refine hledger.of_step (by simp [hphase]) hclock (fun _ hmem => hmem) rfl
    (fun _ => nofun) ?_ ?_ hbound hscope nofun
  · exact hledger.tokens.keep (fun _ hmem => hmem) hclock fun _ => nofun
  · rw [append_nil]
    refine ⟨rfl, ?_, hunfailed⟩
    rintro _ ⟨⟩
    exact ⟨hrotated, token, hissued, rfl, hclient.symm⟩

theorem storing (hledger : Ledger config ⟨run, history⟩)
    {redeemed : Option String} {payload : AccessPayload} {newId : String}
    (hclock : run.clock ≤ now) (hnew : newId ∉ run.known)
    (hphase : run.calls call = .storing redeemed payload token) :
    Ledger config ⟨{ run.move call .done now with
        tokens := run.tokens.set newId token
        known := newId :: run.known },
      history ++ [.stored call newId token, .granted call redeemed payload
        (tokenResponse config payload newId)]⟩ := by
  have hjustified := hledger.calls call
  rw [hphase] at hjustified
  obtain ⟨hscope, hredeemed, hunfailed⟩ := hjustified
  refine hledger.of_step (by simp [hphase]) hclock
    (fun _ hmem => mem_cons_of_mem _ hmem) rfl ?_ ?_ trivial ?_ ?_
    (by simp)
  · simp [ServerEvent.call]
  · exact hledger.tokens.set hnew hclock call token
  · apply hledger.bound.append
    intro event hmem before other client id time hevent
    subst hevent
    simp at hmem
  · have hstored : AtEach (CarriesScope config) (history ++ [.stored call newId token]) :=
      hledger.scope.concat fun _ _ _ _ => nofun
    rw [append_cons]
    apply hstored.concat
    intro other old claims response hevent
    obtain ⟨rfl, rfl, rfl, rfl⟩ := ServerEvent.granted.inj hevent
    refine ⟨rfl, token, by simp [tokenResponse], hscope, ?_⟩
    intro tokenId hsome
    obtain ⟨⟨client, time, hmem⟩, old, hissued, hsame⟩ :=
      hredeemed tokenId hsome
    exact ⟨⟨client, time, mem_append_left _ hmem⟩, old, hissued.append _, hsame⟩

theorem revoking (hledger : Ledger config ⟨run, history⟩) (hclock : run.clock ≤ now)
    (hphase : run.calls call = .revoking tokenId) :
    Ledger config ⟨{ run.move call .done now with
        tokens := run.tokens.erase tokenId },
      history ++ [.revoked call tokenId]⟩ := by
  have hjustified := hledger.calls call
  rw [hphase] at hjustified
  obtain ⟨hbound, hscope⟩ := hledger.quiet [.revoked call tokenId] (by simp) (by simp)
  refine hledger.of_step (by simp [hphase]) hclock (fun _ hmem => hmem) rfl
    ?_ ?_ trivial hbound hscope (by simp)
  · simp [ServerEvent.call]
  · refine hledger.tokens.erase hjustified.1 hclock (by simp) (by simp) ?_ ?_
    · intro event hmem other id heq
      rw [mem_singleton.mp hmem] at heq
      exact (ServerEvent.revoked.inj heq).2.symm
    · exact fun _ _ => .inl (.inr ⟨call, by simp⟩)

omit [DecidableEq ι] in
theorem start_run (config : ServerConfig) (clock : ℤ) :
    Ledger config (⟨ServerRun.start clock, []⟩ : Execution (ServerRun ι) (ServerEvent ι)) := by
  refine ⟨⟨?_, ?_, ?_, ?_, ?_⟩, fun _ _ => nofun, AtEach.nil, AtEach.nil, fun _ _ => nofun⟩
  · rintro tokenId token ⟨call, ⟨⟩⟩
  · rintro tokenId token other ⟨call, ⟨⟩⟩
  · exact fun _ _ => nofun
  · rintro tokenId token ⟨call, ⟨⟩⟩
  · rintro tokenId (⟨call, client, now, ⟨⟩⟩ | ⟨call, ⟨⟩⟩)

theorem step (hledger : Ledger config ⟨run, history⟩) {pick : ServerPick ι}
    (hstep : (serverMachine config).step run pick = some (next, events)) :
    Ledger config ⟨next, history ++ events⟩ := by
  cases pick with
  | start call arguments now =>
    simp only [serverMachine] at hstep
    split at hstep
    · cases hstep
    · next henabled =>
      rw [not_or, Int.not_lt, not_not] at henabled
      have hstart := hledger.start arguments henabled.1 henabled.2
      rwa [Option.some.inj hstep] at hstart
  | next call now newId =>
    simp only [serverMachine] at hstep
    split at hstep
    · cases hstep
    · next henabled =>
      have hclock := Int.not_lt.mp henabled
      unfold advanceCall at hstep
      cases hphase : run.calls call with
      | finding registration tokenId =>
        simp only [hphase] at hstep
        obtain ⟨rfl, rfl⟩ := Prod.mk.inj (Option.some.inj hstep)
        exact hledger.finding hclock hphase
      | checking registration tokenId found =>
        simp only [hphase] at hstep
        have hcheck := hledger.checking hclock hphase
        rwa [Option.some.inj hstep] at hcheck
      | dropping tokenId =>
        simp only [hphase] at hstep
        obtain ⟨rfl, rfl⟩ := Prod.mk.inj (Option.some.inj hstep)
        exact hledger.dropping hclock hphase
      | rotating registration tokenId token =>
        simp only [hphase] at hstep
        obtain ⟨rfl, rfl⟩ := Prod.mk.inj (Option.some.inj hstep)
        exact hledger.rotating hclock hphase
      | issuing registration tokenId token =>
        simp only [hphase] at hstep
        obtain ⟨rfl, rfl⟩ := Prod.mk.inj (Option.some.inj hstep)
        exact hledger.issuing hclock hphase
      | storing redeemed payload token =>
        simp only [hphase] at hstep
        split at hstep
        · cases hstep
        · next hnew =>
          obtain ⟨rfl, rfl⟩ := Prod.mk.inj (Option.some.inj hstep)
          exact hledger.storing hclock hnew hphase
      | revoking tokenId =>
        simp only [hphase] at hstep
        obtain ⟨rfl, rfl⟩ := Prod.mk.inj (Option.some.inj hstep)
        exact hledger.revoking hclock hphase
      | idle =>
        simp only [hphase] at hstep
        cases hstep
      | done =>
        simp only [hphase] at hstep
        cases hstep

end Ledger

theorem rotated_notMem_attempt {result : Except GrantError CallPhase}
    (hattempt : run.attempt call result now = (next, events)) (other : ι)
    (client tokenId : String) (time : ℤ) :
    .rotated other client tokenId time ∉ events := by
  cases result <;> obtain ⟨-, rfl⟩ := Prod.mk.inj hattempt <;> simp

variable {pick : ServerPick ι}

theorem step_redeems (hstep : (serverMachine config).step run pick = some (next, events)) :
    (∃ call now newId registration tokenId token,
      pick = .next call now newId ∧ run.clock ≤ now ∧
        run.calls call = .rotating registration tokenId token ∧
        events = [.rotated call registration.clientId tokenId now]) ∨
    (∀ call client tokenId now, .rotated call client tokenId now ∉ events) ∧
      ∀ call now newId registration tokenId token, pick = .next call now newId →
          run.calls call ≠ .rotating registration tokenId token := by
  cases pick with
  | start call arguments now =>
    simp only [serverMachine] at hstep
    split at hstep
    · cases hstep
    · exact .inr ⟨rotated_notMem_attempt (Option.some.inj hstep), nofun⟩
  | next call now newId =>
    simp only [serverMachine] at hstep
    split at hstep
    · cases hstep
    · next henabled =>
      unfold advanceCall at hstep
      cases hphase : run.calls call with
      | rotating registration tokenId token =>
        simp only [hphase] at hstep
        obtain ⟨-, rfl⟩ := Prod.mk.inj (Option.some.inj hstep)
        exact .inl ⟨call, now, newId, registration, tokenId, token, rfl,
          Int.not_lt.mp henabled, hphase, rfl⟩
      | checking registration tokenId found =>
        simp only [hphase] at hstep
        refine .inr ⟨rotated_notMem_attempt (Option.some.inj hstep), ?_⟩
        rintro _ _ _ _ _ _ ⟨⟩
        simp [hphase]
      | finding _ _ | dropping _ | issuing _ _ _ | revoking _ =>
        simp only [hphase] at hstep
        obtain ⟨-, rfl⟩ := Prod.mk.inj (Option.some.inj hstep)
        refine .inr ⟨by simp, ?_⟩
        rintro _ _ _ _ _ _ ⟨⟩
        simp [hphase]
      | storing redeemed payload token =>
        simp only [hphase] at hstep
        split at hstep
        · cases hstep
        · obtain ⟨-, rfl⟩ := Prod.mk.inj (Option.some.inj hstep)
          refine .inr ⟨by simp, ?_⟩
          rintro _ _ _ _ _ _ ⟨⟩
          simp [hphase]
      | idle | done =>
        simp only [hphase] at hstep
        cases hstep

omit [DecidableEq ι] in
theorem redeemable_iff (hledger : Ledger config ⟨run, history⟩)
    {registration : ClientRegistration} (hclock : run.clock ≤ now)
    (hphase : run.calls call = .rotating registration tokenId token) :
    Redeemable history (.rotated call registration.clientId tokenId now) ↔
      run.tokens.get? tokenId ≠ none ∧ now ≤ token.exp := by
  have hjustified := hledger.calls call
  rw [hphase] at hjustified
  have hissued : Issued history tokenId token := hjustified.1
  constructor
  · intro hredeemable
    obtain ⟨hrotated, hrevoked, htimely⟩ := hredeemable _ _ _ _ rfl
    have hexp := htimely token hissued
    refine ⟨fun hnone => ?_, hexp⟩
    obtain (⟨other, owner, time, hmem⟩ | ⟨other, hmem⟩) | hexpired :=
      hledger.tokens.absent tokenId token hissued hnone
    · exact hrotated other owner time hmem
    · exact hrevoked other hmem
    · exact absurd (Int.lt_of_lt_of_le hexpired hclock) (Int.not_lt.mpr hexp)
  · rintro ⟨hpresent, hexp⟩ other owner id time hevent
    obtain ⟨-, -, rfl, rfl⟩ := ServerEvent.rotated.inj hevent
    refine ⟨fun other owner time hmem => ?_, fun other hmem => ?_, ?_⟩
    · exact hpresent (hledger.tokens.retired tokenId (.inl ⟨other, owner, time, hmem⟩)).1
    · exact hpresent (hledger.tokens.retired tokenId (.inr ⟨other, hmem⟩)).1
    · intro found hfound
      rwa [hledger.tokens.unique tokenId found token hfound hissued]

omit [DecidableEq ι] in
theorem Ledger.redeems_iff (hledger : Ledger config ⟨run, history⟩) :
    Redeems config ⟨run, history⟩ ↔ AtEach Redeemable history :=
  ⟨Redeems.redeemable, fun hredeemable => ⟨hledger.tokens.unique, hredeemable,
    hledger.bound, hledger.scope, hledger.harmless⟩⟩

theorem stillValid_of_disabled (hstep : (serverMachine config).step run pick = none) :
    StillValid run pick := by
  rintro call now newId registration tokenId token rfl hclock hphase
  simp [serverMachine, advanceCall, hphase, Int.not_lt.mpr hclock] at hstep

theorem redeems_step_iff {execution : Execution (ServerRun ι) (ServerEvent ι)}
    {next : ServerRun ι} {events : List (ServerEvent ι)}
    (hledger : Ledger config execution) (hredeems : Redeems config execution)
    (hstep : (serverMachine config).step execution.state pick = some (next, events)) :
    Redeems config ⟨next, execution.trace ++ events⟩ ↔ StillValid execution.state pick := by
  rw [(hledger.step hstep).redeems_iff]
  obtain ⟨call, now, newId, registration, tokenId, token, rfl, hclock,
    hphase, hevents⟩ | ⟨hnone, hnot⟩ := step_redeems hstep
  · rw [hevents]
    have hiff := redeemable_iff hledger hclock hphase
    constructor
    · rintro hall call' now' newId' registration' tokenId' token' hpick - hphase'
      obtain ⟨rfl, rfl, rfl⟩ := ServerPick.next.inj hpick
      rw [hphase] at hphase'
      obtain ⟨rfl, rfl, rfl⟩ := CallPhase.rotating.inj hphase'
      exact hiff.mp (hall _ _ [] rfl)
    · intro hvalid
      exact hredeems.redeemable.concat (hiff.mpr
        (hvalid call now newId registration tokenId token rfl hclock hphase))
  · refine iff_of_true ?_ ?_
    · apply hredeems.redeemable.append
      rintro event hmem before call client tokenId now rfl
      exact absurd hmem (hnone call client tokenId now)
    · intro call now newId registration tokenId token hpick _ hphase
      exact absurd hphase (hnot call now newId registration tokenId token hpick)

theorem redeems_iff_stillValid (config : ServerConfig) (clock : ℤ)
    (schedule : List (ServerPick ι)) :
    (∀ front, front <+: schedule →
      Redeems config ((serverMachine config).run (ServerRun.start clock) front)) ↔
      (serverMachine config).Meets StillValid ⟨ServerRun.start clock, []⟩
        schedule := by
  apply Machine.forall_prefix_iff_meets (Ledger config) (Redeems config)
  · exact fun _ _ _ _ hledger hstep => hledger.step hstep
  · exact fun _ _ _ _ hledger hredeems => redeems_step_iff hledger hredeems
  · exact fun _ _ => stillValid_of_disabled
  · exact Ledger.start_run config clock
  · exact (Ledger.start_run config clock).redeems_iff.mpr AtEach.nil

/-- A client whose requests the server accepts. -/
def exampleServer : ServerConfig where
  secret := "key"
  find := fun registrationId =>
    if registrationId = "app" then some ⟨"app", "pw", ["read"]⟩ else none
  encode := fun payload _ => payload.scope

def twoGrants : List (ServerPick ℕ) :=
  [.start 0 (.token "client_credentials" "app" "pw" "" none) 0, .next 0 0 "t",
    .start 1 (.token "refresh_token" "app" "pw" "" (some "t")) 1,
    .start 2 (.token "refresh_token" "app" "pw" "" (some "t")) 1,
    .next 1 1 "", .next 2 1 "", .next 1 1 "", .next 2 1 "",
    .next 1 1 "", .next 2 1 "", .next 1 1 "", .next 2 1 "",
    .next 1 1 "u", .next 2 1 "v"]

theorem not_redeems_twoGrants : ¬ ∀ front, front <+: twoGrants → Redeems exampleServer
        ((serverMachine exampleServer).run (ServerRun.start 0) front) := by
  intro hall
  have hredeems := (hall _ (prefix_refl _)).redeemable
  have hsplit : ((serverMachine exampleServer).run (ServerRun.start 0)
      twoGrants).trace = ((serverMachine exampleServer).run (ServerRun.start 0)
          twoGrants).trace.take 3 ++ .rotated 2 "app" "t" 1 ::
        ((serverMachine exampleServer).run (ServerRun.start 0) twoGrants).trace.drop 4 := by
    decide +kernel
  have hfirst : .rotated 1 "app" "t" 1 ∈
      ((serverMachine exampleServer).run (ServerRun.start 0) twoGrants).trace.take 3 := by
    decide +kernel
  exact (hredeems _ _ _ hsplit 2 "app" "t" 1 rfl).1 1 "app" 1 hfirst

end PyFly.Security
