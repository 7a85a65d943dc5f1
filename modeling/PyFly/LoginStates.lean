import PyFly.OAuth2Login

/-!
# The states of the OAuth2 login

A session expects the state which was issued in it last, until a callback has
taken it.
-/

namespace PyFly.Security

open Library List
open PyFly.Session (Heap HttpSession)

variable {ι : Type}

/-! ## The law -/

def lastIssued (history : List (LoginEvent ι)) (session : ℕ) : Option String :=
  history.foldl (fun last event =>
    match event with
    | .issued _ other _ state => if other = session then some state else last
    | _ => last) none

def lastIssuedFor (history : List (LoginEvent ι)) (session : ℕ)
    (registration : String) : Option String :=
  history.foldl (fun last event =>
    match event with
    | .issued _ other name state =>
      if other = session ∧ name = registration then some state else last
    | _ => last) none

def Accepts (before : List (LoginEvent ι)) (event : LoginEvent ι) : Prop :=
  ∀ request session registration state, event = .accepted request session registration state →
      lastIssued before session = some state ∧
      ∀ other owner name, .accepted other owner name state ∉ before

def AcceptsFor (before : List (LoginEvent ι)) (event : LoginEvent ι) : Prop :=
  ∀ request session registration state, event = .accepted request session registration state →
      lastIssuedFor before session registration = some state

def LogsIn (before : List (LoginEvent ι)) (event : LoginEvent ι) : Prop :=
  ∀ request session context, event = .loggedIn request session context →
    ∃ registration state, .accepted request session registration state ∈ before

structure AnswersState {ι : Type} [DecidableEq ι] (run next : LoginRun ι)
    (request : ι) (session : HttpSession) (registration : String)
    (query : CallbackQuery) (events : List (LoginEvent ι)) : Prop where
  accepted : ∀ other owner name state, .accepted other owner name state ∈ events →
      other = request ∧ owner = session.data ∧ name = registration ∧ query.state = some state
  rejected : ∀ other owner, .rejected other owner ∈ events → next.heap = run.heap ∧
      next.requests = Function.update run.requests request (.done session)

/-! ## What a session expects -/

def pendingStep (session : ℕ) (pending : Option String) : LoginEvent ι → Option String
  | .issued _ other _ state => if other = session then some state else pending
  | .accepted _ other _ _ => if other = session then none else pending
  | _ => pending

def pendingState (history : List (LoginEvent ι)) (session : ℕ) : Option String :=
  history.foldl (pendingStep session) none

def LoginEvent.Plain : LoginEvent ι → Prop
  | .issued _ _ _ _ | .accepted _ _ _ _ => False
  | _ => True

variable {history events : List (LoginEvent ι)} {session : ℕ}

theorem foldl_of_plain {step : Option String → LoginEvent ι → Option String}
    (hstep : ∀ state event, event.Plain → step state event = state)
    (hplain : ∀ event ∈ events, event.Plain) (state : Option String) :
    events.foldl step state = state := by
  induction events with
  | nil => rfl
  | cons event rest ih =>
    rw [foldl_cons, hstep state event (hplain event mem_cons_self)]
    exact ih fun other hmem => hplain other (mem_cons_of_mem _ hmem)

theorem pendingState_append_plain (hplain : ∀ event ∈ events, event.Plain) (session : ℕ) :
    pendingState (history ++ events) session = pendingState history session := by
  rw [pendingState, foldl_append]
  apply foldl_of_plain _ hplain
  intro state event hevent
  cases event <;> first | rfl | exact hevent.elim

theorem lastIssued_append_plain (hplain : ∀ event ∈ events, event.Plain) (session : ℕ) :
    lastIssued (history ++ events) session = lastIssued history session := by
  rw [lastIssued, foldl_append]
  apply foldl_of_plain _ hplain
  intro state event hevent
  cases event <;> first | rfl | exact hevent.elim

theorem accepted_append_plain (hplain : ∀ event ∈ events, event.Plain)
    {request : ι} {name state : String} :
    .accepted request session name state ∈ history ++ events ↔
      .accepted request session name state ∈ history := by
  rw [mem_append, or_iff_left]
  exact fun hmem => (hplain _ hmem).elim

structure Expects (run : LoginRun ι) (history : List (LoginEvent ι)) : Prop
    where
  heap : ∀ session, (run.heap.dicts session).get? oauth2StateKey =
    (pendingState history session).map .text
  drawn : ∀ session state, pendingState history session = some state → state ∈ run.drawn
  nonempty : ∀ session state, pendingState history session = some state → state ≠ ""
  last : ∀ session state, pendingState history session = some state →
    lastIssued history session = some state
  fresh : ∀ session state, pendingState history session = some state →
    ∀ request owner name, .accepted request owner name state ∉ history
  unique : ∀ session other state, pendingState history session = some state →
    pendingState history other = some state → session = other
  taken : ∀ request owner name state,
    .accepted request owner name state ∈ history → state ∈ run.drawn
  callbacks : ∀ request session registration,
    run.requests request = .exchanging session registration ∨
      run.requests request = .fetching session registration →
    ∃ name state, .accepted request session.data name state ∈ history
  accepts : AtEach Accepts history
  logsIn : AtEach LogsIn history

namespace Expects

variable [DecidableEq ι] {run next : LoginRun ι} {request : ι} {phase : LoginPhase}

theorem callbacks_move (hexpects : Expects run history)
    (hrequests : next.requests = Function.update run.requests request phase)
    (hphase : ∀ session registration, phase = .exchanging session registration ∨
        phase = .fetching session registration →
      ∃ name state, .accepted request session.data name state ∈ history ++ events)
    (other : ι) (session : HttpSession) (registration : LoginRegistration)
    (hother : next.requests other = .exchanging session registration ∨
      next.requests other = .fetching session registration) :
    ∃ name state, .accepted other session.data name state ∈ history ++ events := by
  rw [hrequests] at hother
  by_cases hsame : other = request
  · rw [hsame, Function.update_self] at hother
    rw [hsame]
    exact hphase session registration hother
  · rw [Function.update_of_ne hsame] at hother
    obtain ⟨name, state, hmem⟩ :=
      hexpects.callbacks other session registration hother
    exact ⟨name, state, mem_append_left _ hmem⟩

theorem plain (hexpects : Expects run history)
    (hrequests : next.requests = Function.update run.requests request phase)
    (hplain : ∀ event ∈ events, event.Plain) (hdrawn : next.drawn = run.drawn)
    (hheap : ∀ session, (next.heap.dicts session).get? oauth2StateKey =
      (run.heap.dicts session).get? oauth2StateKey)
    (hphase : ∀ session registration, phase = .exchanging session registration ∨
        phase = .fetching session registration →
      ∃ name state, .accepted request session.data name state ∈ history ++ events)
    (hlogsIn : AtEach LogsIn (history ++ events)) :
    Expects next (history ++ events) := by
  have hpending : ∀ session, pendingState (history ++ events) session =
      pendingState history session := pendingState_append_plain hplain
  have haccepted : ∀ {request owner name state},
      .accepted request owner name state ∈ history ++ events →
        .accepted request owner name state ∈ history :=
    (accepted_append_plain hplain).mp
  constructor
  · intro session
    rw [hheap, hexpects.heap, hpending]
  · intro session state hstate
    rw [hpending] at hstate
    exact hdrawn ▸ hexpects.drawn session state hstate
  · intro session state hstate
    rw [hpending] at hstate
    exact hexpects.nonempty session state hstate
  · intro session state hstate
    rw [hpending] at hstate
    rw [lastIssued_append_plain hplain]
    exact hexpects.last session state hstate
  · intro session state hstate other owner name hmem
    rw [hpending] at hstate
    exact hexpects.fresh session state hstate other owner name (haccepted hmem)
  · intro session other state hstate hother
    rw [hpending] at hstate hother
    exact hexpects.unique session other state hstate hother
  · intro other owner name state hmem
    exact hdrawn ▸ hexpects.taken other owner name state (haccepted hmem)
  · exact hexpects.callbacks_move hrequests hphase
  · apply hexpects.accepts.append
    rintro event hmem before other owner name state rfl
    exact (hplain _ hmem).elim
  · exact hlogsIn

theorem respond (hexpects : Expects run history) (request : ι)
    (hresponses : ∀ event ∈ events, ∃ response, event = .responded request response) :
    Expects run (history ++ events) := by
  have hrequests : run.requests = Function.update run.requests request (run.requests request) :=
    (Function.update_eq_self _ _).symm
  refine hexpects.plain hrequests ?_ rfl (fun _ => rfl) ?_ ?_
  · intro event hmem
    obtain ⟨response, rfl⟩ := hresponses event hmem
    trivial
  · intro session registration hphase
    obtain ⟨name, state, hmem⟩ :=
      hexpects.callbacks request session registration hphase
    exact ⟨name, state, mem_append_left _ hmem⟩
  · apply hexpects.logsIn.append
    intro event hmem before
    obtain ⟨response, rfl⟩ := hresponses event hmem
    exact fun _ _ _ => nofun

theorem issue (hexpects : Expects run history) {session : ℕ}
    {registration state : String} (hnonempty : state ≠ "")
    (hnew : state ∉ run.drawn) (hdrawn : next.drawn = state :: run.drawn)
    (hheap : ∀ other, (next.heap.dicts other).get? oauth2StateKey =
      if other = session then some (.text state)
      else (run.heap.dicts other).get? oauth2StateKey)
    (hrequests : next.requests = Function.update run.requests request phase)
    (hphase : ∀ session registration, phase ≠ .exchanging session registration ∧
        phase ≠ .fetching session registration) :
    Expects next (history ++ [.issued request session registration state]) := by
  have hpending : ∀ other, pendingState
      (history ++ [.issued request session registration state]) other =
        if other = session then some state
        else pendingState history other := by
    intro other
    simp [pendingState, pendingStep, eq_comm]
  have hlast : ∀ other, lastIssued
      (history ++ [.issued request session registration state]) other =
        if other = session then some state else lastIssued history other := by
    intro other
    simp [lastIssued, eq_comm]
  have haccepted : ∀ {request' owner name found}, .accepted request' owner name found ∈
          history ++ [.issued request session registration state] →
        .accepted request' owner name found ∈ history := by
    intro request' owner name found hmem
    simpa using hmem
  -- a state which some session expects has been drawn before
  have hold : ∀ {other found}, pendingState
      (history ++ [.issued request session registration state]) other = some found →
      other = session ∧ found = state ∨
        pendingState history other = some found ∧ other ≠ session := by
    intro other found hfound
    rw [hpending] at hfound
    split at hfound
    · next hsame => exact .inl ⟨hsame, (Option.some.inj hfound).symm⟩
    · next hne => exact .inr ⟨hfound, hne⟩
  constructor
  · intro other
    rw [hheap, hpending, hexpects.heap]
    split <;> rfl
  · intro other found hfound
    rw [hdrawn]
    obtain ⟨-, rfl⟩ | ⟨hbefore, -⟩ := hold hfound
    · exact mem_cons_self
    · exact mem_cons_of_mem _ (hexpects.drawn other found hbefore)
  · intro other found hfound
    obtain ⟨-, rfl⟩ | ⟨hbefore, -⟩ := hold hfound
    · exact hnonempty
    · exact hexpects.nonempty other found hbefore
  · intro other found hfound
    rw [hlast]
    obtain ⟨rfl, rfl⟩ | ⟨hbefore, hne⟩ := hold hfound
    · exact if_pos rfl
    · rw [if_neg hne]
      exact hexpects.last other found hbefore
  · intro other found hfound request' owner name hmem
    obtain ⟨-, rfl⟩ | ⟨hbefore, -⟩ := hold hfound
    · exact hnew (hexpects.taken request' owner name found (haccepted hmem))
    · exact hexpects.fresh other found hbefore request' owner name (haccepted hmem)
  · intro one two found hone htwo
    obtain ⟨rfl, rfl⟩ | ⟨hfirst, -⟩ := hold hone
    · obtain ⟨rfl, -⟩ | ⟨hsecond, -⟩ := hold htwo
      · rfl
      · exact absurd (hexpects.drawn two found hsecond) hnew
    · obtain ⟨rfl, rfl⟩ | ⟨hsecond, -⟩ := hold htwo
      · exact absurd (hexpects.drawn one found hfirst) hnew
      · exact hexpects.unique one two found hfirst hsecond
  · intro request' owner name found hmem
    rw [hdrawn]
    exact mem_cons_of_mem _ (hexpects.taken request' owner name found (haccepted hmem))
  · apply hexpects.callbacks_move hrequests
    rintro found name (heq | heq)
    · exact absurd heq (hphase found name).1
    · exact absurd heq (hphase found name).2
  · exact hexpects.accepts.concat fun _ _ _ _ => nofun
  · exact hexpects.logsIn.concat fun _ _ _ => nofun

theorem accept (hexpects : Expects run history) {session : ℕ} {registration state : String}
    (hstate : pendingState history session = some state)
    (hdrawn : next.drawn = run.drawn)
    (hheap : ∀ other, (next.heap.dicts other).get? oauth2StateKey = if other = session then none
      else (run.heap.dicts other).get? oauth2StateKey)
    (hrequests : next.requests = Function.update run.requests request phase)
    (hphase : ∀ found registration, phase = .exchanging found registration ∨
      phase = .fetching found registration → found.data = session) :
    Expects next (history ++ [.accepted request session registration state]) := by
  have hpending : ∀ other, pendingState
      (history ++ [.accepted request session registration state]) other =
        if other = session then none else pendingState history other := by
    intro other
    simp [pendingState, pendingStep, eq_comm]
  have hlast : ∀ other, lastIssued
      (history ++ [.accepted request session registration state]) other =
        lastIssued history other := by
    intro other
    simp [lastIssued]
  have hold : ∀ {other found}, pendingState
      (history ++ [.accepted request session registration state]) other = some found →
      pendingState history other = some found ∧ other ≠ session := by
    intro other found hfound
    rw [hpending] at hfound
    split at hfound
    · cases hfound
    · next hne => exact ⟨hfound, hne⟩
  constructor
  · intro other
    rw [hheap, hpending, hexpects.heap]
    split <;> rfl
  · exact fun other found hfound =>
      hdrawn ▸ hexpects.drawn other found (hold hfound).1
  · exact fun other found hfound => hexpects.nonempty other found (hold hfound).1
  · intro other found hfound
    rw [hlast]
    exact hexpects.last other found (hold hfound).1
  · intro other found hfound request' owner name hmem
    obtain ⟨hbefore, hne⟩ := hold hfound
    rcases mem_append.mp hmem with hpast | hnow
    · exact hexpects.fresh other found hbefore request' owner name hpast
    · simp only [mem_singleton, LoginEvent.accepted.injEq] at hnow
      obtain ⟨-, -, -, rfl⟩ := hnow
      exact hne (hexpects.unique other session found hbefore hstate)
  · exact fun one two found hone htwo =>
      hexpects.unique one two found (hold hone).1 (hold htwo).1
  · intro request' owner name found hmem
    rw [hdrawn]
    rcases mem_append.mp hmem with hpast | hnow
    · exact hexpects.taken request' owner name found hpast
    · simp only [mem_singleton, LoginEvent.accepted.injEq] at hnow
      obtain ⟨-, -, -, rfl⟩ := hnow
      exact hexpects.drawn session found hstate
  · apply hexpects.callbacks_move hrequests
    intro found name heq
    exact ⟨registration, state, by simp [hphase found name heq]⟩
  · apply hexpects.accepts.concat
    intro request' owner name found hevent
    obtain ⟨-, rfl, -, rfl⟩ := LoginEvent.accepted.inj hevent
    exact ⟨hexpects.last _ _ hstate, hexpects.fresh _ _ hstate⟩
  · exact hexpects.logsIn.concat fun _ _ _ => nofun

theorem ends (hexpects : Expects run history) {session : HttpSession}
    (hplain : ∀ event ∈ events, event.Plain)
    (hnoLogin : ∀ event ∈ events, ∀ request session context,
      event ≠ .loggedIn request session context) :
    Expects (run.move request (.done session) run.heap) (history ++ events) := by
  have hrequests : (run.move request (.done session) run.heap).requests =
      Function.update run.requests request (.done session) := rfl
  refine hexpects.plain hrequests hplain rfl (fun _ => rfl) ?_ ?_
  · rintro found registration (heq | heq) <;> cases heq
  · apply hexpects.logsIn.append
    intro event hmem before other owner context heq
    exact absurd heq (hnoLogin event hmem other owner context)

end Expects

section Steps

variable [DecidableEq ι] {find : String → Option LoginRegistration}
  {run : LoginRun ι} {request : ι} {session : HttpSession}
  {registrationId : String}

theorem expects_handleAuthorization (hexpects : Expects run history)
    {state : String} (hnonempty : state ≠ "") (hnew : state ∉ run.drawn) :
    Expects (handleAuthorization find request session registrationId state run).1
      (history ++ (handleAuthorization find request session registrationId state run).2) := by
  unfold handleAuthorization
  cases find registrationId with
  | none => exact hexpects.ends (by simp [LoginEvent.Plain]) (by simp)
  | some registration =>
    rw [append_cons]
    refine Expects.respond ?_ request (by simp)
    refine hexpects.issue hnonempty hnew rfl (fun other => ?_) rfl fun _ _ => ⟨nofun, nofun⟩
    refine (session.get?_setAttribute oauth2StateKey run.heap _ other _).trans ?_
    simp

theorem acceptCallback_cases (request : ι) (session : HttpSession)
    (registration : LoginRegistration) (query : CallbackQuery)
    (heap : Heap SessionValue) (run : LoginRun ι) :
    ∃ phase events, acceptCallback request session registration query heap run =
        (run.move request phase heap, events) ∧
      (∀ event ∈ events, ∃ response, event = .responded request response) ∧
      ∀ found other, phase = .exchanging found other ∨
        phase = .fetching found other → found = session := by
  unfold acceptCallback
  split
  · exact ⟨_, _, rfl, by simp, by simp⟩
  · split
    · exact ⟨_, _, rfl, by simp, by simp⟩
    · refine ⟨_, _, rfl, by simp, ?_⟩
      rintro found other (heq | heq) <;> cases heq
      rfl

theorem expectedState_eq_some {query : CallbackQuery}
    {heap : Heap SessionValue} {state : String}
    (hexpected : expectedState session query heap = some state) :
    session.getAttribute oauth2StateKey heap = some (.text state) ∧
      query.state = some state := by
  unfold expectedState at hexpected
  split at hexpected
  · next expected received hattribute hstate =>
    split at hexpected
    · next hsame =>
      rw [← Option.some.inj hexpected]
      exact ⟨hsame.2 ▸ hattribute, hstate⟩
    · cases hexpected
  · cases hexpected

theorem expects_handleCallback (hexpects : Expects run history) (query : CallbackQuery) :
    Expects (handleCallback find request session registrationId query run).1
      (history ++ (handleCallback find request session registrationId query run).2) := by
  unfold handleCallback
  cases find registrationId with
  | none => exact hexpects.ends (by simp [LoginEvent.Plain]) (by simp)
  | some registration =>
    cases hexpected : expectedState session query run.heap with
    | none => exact hexpects.ends (by simp [LoginEvent.Plain]) (by simp)
    | some state =>
      obtain ⟨phase, events, haccept, hresponses, hphase⟩ :=
        acceptCallback_cases request
          (session.removeAttribute oauth2StateKey run.heap).1 registration
          query (session.removeAttribute oauth2StateKey run.heap).2 run
      simp only [haccept]
      rw [append_cons]
      refine Expects.respond ?_ request hresponses
      refine hexpects.accept ?_ rfl (fun other => ?_) rfl ?_
      · have hattribute := (expectedState_eq_some hexpected).1
        rw [HttpSession.getAttribute, hexpects.heap] at hattribute
        obtain ⟨found, hfound, htext⟩ :=
          Option.map_eq_some_iff.mp hattribute
        rw [hfound, SessionValue.text.inj htext]
      · refine (session.get?_removeAttribute oauth2StateKey run.heap other _).trans ?_
        simp
      · intro found other heq
        rw [hphase found other heq, HttpSession.data_removeAttribute]

theorem expects_logIn (hexpects : Expects run history)
    (hcallback : ∃ name state, .accepted request session.data name state ∈ history)
    (userInfo : Dict String UserValue) :
    Expects (logIn request session userInfo run).1
      (history ++ (logIn request session userInfo run).2) := by
  have hrequests : ∃ changed, (logIn request session userInfo run).1.requests =
        Function.update run.requests request (.done changed) := ⟨_, rfl⟩
  obtain ⟨changed, hrequests⟩ := hrequests
  refine hexpects.plain hrequests (by simp [logIn, LoginEvent.Plain]) rfl
    (fun other => ?_) ?_ ?_
  · have hkeys : oauth2StateKey ≠ securityContextKey ∧
        oauth2StateKey ≠ redirectUriKey := by decide
    refine (HttpSession.get?_removeAttribute redirectUriKey _ _ other _).trans ?_
    rw [if_neg (by simp [hkeys.2])]
    refine (session.get?_setAttribute securityContextKey run.heap _ other _).trans ?_
    rw [if_neg (by simp [hkeys.1])]
  · rintro found registration (heq | heq) <;> cases heq
  · simp only [logIn]
    rw [append_cons]
    have hstored : AtEach LogsIn (history ++ [.loggedIn request session.data
        (buildSecurityContext userInfo)]) := by
      apply hexpects.logsIn.concat
      intro other owner context hevent
      obtain ⟨rfl, rfl, -⟩ := LoginEvent.loggedIn.inj hevent
      exact hcallback
    exact hstored.concat fun _ _ _ => nofun

theorem expects_handleExchange (hexpects : Expects run history)
    (hcallback : ∃ name state, .accepted request session.data name state ∈ history)
    (registration : LoginRegistration) (accessToken : Option String) :
    Expects (handleExchange request session registration accessToken run).1 (history ++
        (handleExchange request session registration accessToken run).2) := by
  unfold handleExchange
  split
  · exact hexpects.ends (by simp [LoginEvent.Plain]) (by simp)
  · split
    · exact expects_logIn hexpects hcallback .empty
    · have hrequests : (run.move request (.fetching session registration) run.heap).requests =
            Function.update run.requests request (.fetching session registration) := rfl
      refine hexpects.plain hrequests (fun _ => nofun) rfl (fun _ => rfl) ?_ ?_
      · rintro found other (heq | heq) <;> cases heq
        rw [append_nil]
        exact hcallback
      · rw [append_nil]
        exact hexpects.logsIn

theorem expects_step (hexpects : Expects run history) {pick : LoginPick ι} {next : LoginRun ι}
    (hstep : (loginMachine find).step run pick = some (next, events)) :
    Expects next (history ++ events) := by
  cases pick with
  | authorize request session registrationId state =>
    simp only [loginMachine] at hstep
    split at hstep
    · cases hstep
    · next henabled =>
      simp only [not_or] at henabled
      obtain ⟨rfl, rfl⟩ := Prod.mk.inj (Option.some.inj hstep)
      exact expects_handleAuthorization hexpects henabled.2.1 henabled.2.2
  | callback request session registrationId query =>
    simp only [loginMachine] at hstep
    split at hstep
    · cases hstep
    · obtain ⟨rfl, rfl⟩ := Prod.mk.inj (Option.some.inj hstep)
      exact expects_handleCallback hexpects query
  | exchanged request answer =>
    simp only [loginMachine] at hstep
    split at hstep
    · obtain ⟨rfl, rfl⟩ := Prod.mk.inj (Option.some.inj hstep)
      exact hexpects.ends (by simp [LoginEvent.Plain]) (by simp)
    · next session registration accessToken hphase =>
      obtain ⟨rfl, rfl⟩ := Prod.mk.inj (Option.some.inj hstep)
      exact expects_handleExchange hexpects
        (hexpects.callbacks request session registration (.inl hphase))
        registration accessToken
    · cases hstep
  | fetched request answer =>
    simp only [loginMachine] at hstep
    split at hstep
    · obtain ⟨rfl, rfl⟩ := Prod.mk.inj (Option.some.inj hstep)
      exact hexpects.ends (by simp [LoginEvent.Plain]) (by simp)
    · next session registration userInfo hphase =>
      obtain ⟨rfl, rfl⟩ := Prod.mk.inj (Option.some.inj hstep)
      exact expects_logIn hexpects
        (hexpects.callbacks request session registration (.inr hphase))
        userInfo
    · cases hstep
  | logout request session =>
    simp only [loginMachine] at hstep
    split at hstep
    · cases hstep
    · obtain ⟨rfl, rfl⟩ := Prod.mk.inj (Option.some.inj hstep)
      exact hexpects.ends (by simp [LoginEvent.Plain]) (by simp)

theorem answersState_handleCallback (query : CallbackQuery) : AnswersState run
      (handleCallback find request session registrationId query run).1 request
      session registrationId query
      (handleCallback find request session registrationId query run).2 := by
  unfold handleCallback
  cases find registrationId with
  | none => exact ⟨by simp, by simp⟩
  | some registration =>
    cases hexpected : expectedState session query run.heap with
    | none => exact ⟨by simp, fun _ _ _ => ⟨rfl, rfl⟩⟩
    | some state =>
      obtain ⟨phase, events, haccept, hresponses, -⟩ :=
        acceptCallback_cases request
          (session.removeAttribute oauth2StateKey run.heap).1 registration
          query (session.removeAttribute oauth2StateKey run.heap).2 run
      simp only [haccept]
      constructor
      · intro other owner name found hmem
        rcases mem_cons.mp hmem with heq | hrest
        · obtain ⟨rfl, rfl, rfl, rfl⟩ := LoginEvent.accepted.inj heq
          exact ⟨rfl, rfl, rfl, (expectedState_eq_some hexpected).2⟩
        · obtain ⟨response, heq⟩ := hresponses _ hrest
          cases heq
      · intro other owner hmem
        rcases mem_cons.mp hmem with heq | hrest
        · cases heq
        · obtain ⟨response, heq⟩ := hresponses _ hrest
          cases heq

end Steps

/-! ## Every run -/

theorem expects_start (unvisited : Unvisited) : Expects (unvisited.start : LoginRun ι) [] := by
  constructor
  · exact unvisited.noState
  · exact fun _ _ => nofun
  · exact fun _ _ => nofun
  · exact fun _ _ => nofun
  · exact fun _ _ => nofun
  · exact fun _ _ _ => nofun
  · exact fun _ _ _ _ => nofun
  · rintro request session registration (hphase | hphase) <;> cases hphase
  · exact AtEach.nil
  · exact AtEach.nil

structure AnswersStates [DecidableEq ι]
    (find : String → Option LoginRegistration) (unvisited : Unvisited)
    (schedule : List (LoginPick ι)) : Prop where
  accepts : AtEach Accepts ((loginMachine find).run unvisited.start schedule).trace
  logsIn : AtEach LogsIn ((loginMachine find).run unvisited.start schedule).trace
  answers : ∀ request session registration query next events,
    (loginMachine find).step ((loginMachine find).run unvisited.start schedule).state
        (.callback request session registration query) =
      some (next, events) →
    AnswersState ((loginMachine find).run unvisited.start schedule).state next
      request session registration query events

def mixedUp : List (LoginPick ℕ) :=
  [.authorize 0 ⟨"s", 0, false, false, false⟩ "google" "x",
    .callback 1 ⟨"s", 0, false, false, false⟩ "github" { state := some "x", code := some "c" },
    .exchanged 1 (some (some "token"))]

end PyFly.Security
