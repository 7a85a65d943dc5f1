import PyFly.SessionPropagation

/-!
# The end of every session

The history of one session within a run is that of its call: the session is
opened, the body ends, and the decorator commits or rolls back.
-/

namespace PyFly.Data

open List

variable {S R E : Type} {env : SessionEnvironment S R E}

/-! ## Histories of one session -/

def SessionEvent.session? : SessionEvent S R E → Option ℕ
  | opened session _ => some session
  | ended session _ _ => some session
  | committed session => some session
  | rolledBack session => some session
  | _ => none

def sessionHistory (session : ℕ) (events : List (SessionEvent S R E)) :
    List (SessionEvent S R E) :=
  events.filter fun event => event.session? = some session

theorem sessionHistory_append (session : ℕ) (first second : List (SessionEvent S R E)) :
    sessionHistory session (first ++ second) =
      sessionHistory session first ++ sessionHistory session second :=
  filter_append ..

theorem sessionHistory_cons (session : ℕ) (event : SessionEvent S R E)
    (events : List (SessionEvent S R E)) :
    sessionHistory session (event :: events) = if event.session? = some session then
        event :: sessionHistory session events
      else sessionHistory session events := by
  simp [sessionHistory, filter_cons]

theorem mem_sessionHistory (session : ℕ) {event : SessionEvent S R E}
    (events : List (SessionEvent S R E))
    (hsession : event.session? = some session) :
    event ∈ sessionHistory session events ↔ event ∈ events := by
  simp [sessionHistory, hsession]

variable {session : ℕ} {events : List (SessionEvent S R E)}

theorem sessionHistory_all (hall : ∀ event ∈ events, event.session? = some session) :
    sessionHistory session events = events := by
  rw [sessionHistory, filter_eq_self]
  intro event hevent
  simpa using hall event hevent

def Within (low high : ℕ) (events : List (SessionEvent S R E)) : Prop :=
  ∀ event ∈ events, ∀ session, event.session? = some session → low ≤ session ∧ session < high

theorem Within.sessionHistory_nil {low high : ℕ} (hwithin : Within low high events)
    (houtside : session < low ∨ high ≤ session) :
    sessionHistory session events = [] := by
  rw [sessionHistory, filter_eq_nil_iff]
  intro event hevent hsession
  have hrange := hwithin event hevent session (by simpa using hsession)
  omega

theorem finishEvents_session (env : SessionEnvironment S R E)
    (method : Transactional E) (session : ℕ) (outcome : Outcome E)
    (event : SessionEvent S R E)
    (hevent : event ∈ finishEvents env method session outcome) :
    event.session? = some session := by
  have hexception : ∀ attempts exc, event ∈ exceptionEvents env method session attempts exc →
      event.session? = some session := by
    intro attempts exc hmem
    unfold exceptionEvents at hmem
    split at hmem <;> split at hmem <;> simp at hmem <;> rw [hmem] <;> rfl
  cases outcome with
  | returned =>
    unfold finishEvents at hevent
    cases hcommit : env.commit session 0 with
    | none =>
      rw [hcommit, mem_singleton] at hevent
      rw [hevent]
      rfl
    | some exc =>
      rw [hcommit] at hevent
      exact hexception 1 exc hevent
  | raised exc => exact hexception 0 exc hevent

/-! ## Runs -/

structure Rounds (env : SessionEnvironment S R E) (low high : ℕ)
    (events : List (SessionEvent S R E)) : Prop where
  le : low ≤ high
  within : Within low high events
  round : ∀ session, sessionHistory session events = [] ∨
    ∃ service method outcome, sessionHistory session events =
      .opened session service :: .ended session method outcome ::
        finishEvents env method session outcome

namespace Rounds

theorem idle (low : ℕ) {events : List (SessionEvent S R E)}
    (hidle : ∀ event ∈ events, event.session? = none) :
    Rounds env low low events where
  le := Nat.le_refl _
  within event hevent session hsession := by
    rw [hidle event hevent] at hsession
    cases hsession
  round session := by
    left
    rw [sessionHistory, filter_eq_nil_iff]
    intro event hevent
    simp [hidle event hevent]

theorem append {low middle high : ℕ} {first second : List (SessionEvent S R E)}
    (hfirst : Rounds env low middle first)
    (hsecond : Rounds env middle high second) :
    Rounds env low high (first ++ second) := by
  have hlow := hfirst.le
  have hhigh := hsecond.le
  refine ⟨Nat.le_trans hlow hhigh, ?_, ?_⟩
  · intro event hevent session hsession
    rcases mem_append.mp hevent with hevent | hevent
    · have hrange := hfirst.within event hevent session hsession
      omega
    · have hrange := hsecond.within event hevent session hsession
      omega
  · intro session
    rw [sessionHistory_append]
    rcases Nat.lt_or_ge session middle with hlt | hge
    · rw [hsecond.within.sessionHistory_nil (Or.inl hlt), append_nil]
      exact hfirst.round session
    · rw [hfirst.within.sessionHistory_nil (Or.inr hge), nil_append]
      exact hsecond.round session

theorem call {session high : ℕ} {inner : List (SessionEvent S R E)}
    (hinner : Rounds env (session + 1) high inner) (service : S)
    (method : Transactional E) (outcome : Outcome E) :
    Rounds env session high (.opened session service :: inner ++
        .ended session method outcome ::
          finishEvents env method session outcome ++ [.restored]) := by
  have hle := hinner.le
  constructor
  · omega
  · intro event hevent other hother
    have hown : event.session? = some session → session = other := by
      intro hsession
      rw [hsession] at hother
      exact Option.some.inj hother
    simp only [mem_append, mem_cons, not_mem_nil, or_false]
      at hevent
    rcases hevent with ((rfl | hevent) | rfl | hevent) | rfl
    · have := hown rfl
      omega
    · have := hinner.within event hevent other hother
      omega
    · have := hown rfl
      omega
    · have := hown (finishEvents_session env method session outcome event hevent)
      omega
    · cases hother
  · intro other
    by_cases hother : other = session
    · right
      subst hother
      have hnil : sessionHistory other inner = [] :=
        hinner.within.sessionHistory_nil (Or.inl (Nat.lt_succ_self _))
      have hfinish := sessionHistory_all (finishEvents_session env method other outcome)
      refine ⟨service, method, outcome, ?_⟩
      rw [sessionHistory_append, sessionHistory_append,
        sessionHistory_cons, sessionHistory_cons, hnil, hfinish]
      simp [SessionEvent.session?, sessionHistory]
    · have hnil : sessionHistory other (finishEvents env method session outcome) = [] := by
        rw [sessionHistory, filter_eq_nil_iff]
        intro event hevent
        have hsession :=
          finishEvents_session env method session outcome event hevent
        simp [hsession, Ne.symm hother]
      have hhistory : sessionHistory other (.opened session service :: inner ++
            .ended session method outcome ::
              finishEvents env method session outcome ++ [.restored]) =
          sessionHistory other inner := by
        rw [sessionHistory_append, sessionHistory_append,
          sessionHistory_cons, sessionHistory_cons, hnil]
        simp [SessionEvent.session?, sessionHistory, Ne.symm hother]
      rw [hhistory]
      exact hinner.round other

end Rounds

def RunsRounds (env : SessionEnvironment S R E) (func : SessionRun S R E) :
    Prop :=
  ∀ state, ∃ events, (func state).2.events = state.events ++ events ∧
    Rounds env state.next (func state).2.next events

theorem RunsRounds.inNewSession {func : SessionRun S R E}
    (hfunc : RunsRounds env func) (service : S) (method : Transactional E) :
    RunsRounds env (inNewSession env service method func) := by
  intro state
  have hunopened : Rounds env state.next (state.next + 1)
      ([] : List (SessionEvent S R E)) := {
    le := Nat.le_succ _
    within := fun _ hevent => by cases hevent
    round := fun _ => Or.inl rfl }
  rcases inNewSession_cases env service method func state with
    hstate | hstate | hstate
  · rw [hstate]
    exact ⟨[], (append_nil _).symm, Rounds.idle _ fun _ hevent => by cases hevent⟩
  · rw [hstate]
    exact ⟨[], (append_nil _).symm, hunopened⟩
  · obtain ⟨inner, hevents, hinner⟩ := hfunc (state.entered env service)
    rw [hstate]
    refine ⟨_, ?_, hinner.call service method
      (func (state.entered env service)).1⟩
    simp [SessionState.restore, hevents]

theorem RunsRounds.transactional {func : SessionRun S R E}
    (hfunc : RunsRounds env func) (service : S) (method : Transactional E) :
    RunsRounds env (transactional env service method func) := by
  intro state
  have hnew := hfunc.inNewSession service method state
  have hrefused : ∃ events : List (SessionEvent S R E),
      state.events = state.events ++ events ∧ Rounds env state.next state.next events :=
    ⟨[], (append_nil _).symm, Rounds.idle _ fun _ hevent => by cases hevent⟩
  unfold PyFly.Data.transactional
  cases method.propagation with
  | never =>
    simp only
    split
    · exact hrefused
    · exact hfunc state
  | notSupported =>
    obtain ⟨inner, hevents, hinner⟩ :=
      hfunc ({ state with active := none }.emit .suspended)
    refine ⟨.suspended :: inner ++ [.restored], ?_, ?_⟩
    · simp only [SessionState.restore, SessionState.emit_events, hevents]
      simp
    · have hsuspended : Rounds env state.next state.next [(.suspended : SessionEvent S R E)] :=
        Rounds.idle _ fun event hevent => by
          rw [mem_singleton.mp hevent]
          rfl
      have hrestored := hsuspended.append hinner
      exact hrestored.append (Rounds.idle _ fun event hevent => by
        rw [mem_singleton.mp hevent]
        rfl)
  | supports => exact hfunc state
  | mandatory =>
    simp only
    split
    · exact hrefused
    · exact hfunc state
  | required =>
    simp only
    split
    · exact hfunc state
    · exact hnew
  | requiresNew => exact hnew

theorem SessionBody.run_runsRounds (env : SessionEnvironment S R E)
    (body : SessionBody S E) (service : S) :
    RunsRounds env (body.run env service) := by
  induction body generalizing service with
  | returns =>
    intro state
    exact ⟨[], (append_nil _).symm, Rounds.idle _ fun _ hevent => by cases hevent⟩
  | raises exc =>
    intro state
    exact ⟨[], (append_nil _).symm, Rounds.idle _ fun _ hevent => by cases hevent⟩
  | point rest ih =>
    intro state
    obtain ⟨events, hevents, hrounds⟩ := ih service
      (state.emit (.point service state.active state.bound))
    have hpoint : Rounds env state.next state.next
        [(.point service state.active state.bound : SessionEvent S R E)] :=
      Rounds.idle _ fun event hevent => by
        rw [mem_singleton.mp hevent]
        rfl
    refine ⟨_, ?_, hpoint.append hrounds⟩
    rw [SessionBody.run, hevents, SessionState.emit_events, append_assoc]
  | call callee method body handled rest ihBody ihRest =>
    intro state
    obtain ⟨called, hcalled, hcallRounds⟩ :=
      (ihBody callee).transactional callee method state
    rcases hcall : PyFly.Data.transactional env callee method
      (body.run env callee) state with ⟨outcome, after⟩
    rw [hcall] at hcalled hcallRounds
    simp only [SessionBody.run, hcall]
    have hrest : ∃ events, (rest.run env service after).2.events = state.events ++ events ∧
        Rounds env state.next (rest.run env service after).2.next
          events := by
      obtain ⟨events, hevents, hrounds⟩ := ihRest service after
      refine ⟨_, ?_, hcallRounds.append hrounds⟩
      rw [hevents, hcalled, append_assoc]
    have hleft : ∃ events, after.events = state.events ++ events ∧
        Rounds env state.next after.next events :=
      ⟨called, hcalled, hcallRounds⟩
    cases outcome with
    | returned => exact hrest
    | raised exc =>
      cases handled with
      | false => exact hleft
      | true => exact hrest

/-! ## Commits and rollbacks -/

def SessionEvent.finishes (session : ℕ) : SessionEvent S R E → Bool
  | committed other => other = session
  | rolledBack other => other = session
  | _ => false

def FinishedOnce (events : List (SessionEvent S R E)) : Prop :=
  ∀ session service, .opened session service ∈ events →
    events.countP (SessionEvent.finishes session) = 1 ∧ (.committed session ∈ events ↔
        ∃ method, .ended session method .returned ∈ events) ∧
      ∀ method exc, .ended session method (.raised exc) ∈ events → .committed session ∉ events

/-- The session is committed after a return, perhaps at the second attempt,
and rolled back after an exception. -/
def FinishesByOutcome (env : SessionEnvironment S R E)
    (method : Transactional E) (session : ℕ) : Outcome E → Prop
  | .returned => env.commit session 0 = none ∨ ∃ exc, env.commit session 0 = some exc ∧
        method.rollbackFor exc = false ∧ env.commit session 1 = none
  | .raised exc =>
    method.rollbackFor exc = true ∧ env.rollback session = none

theorem countP_finishes (session : ℕ) (events : List (SessionEvent S R E)) :
    (sessionHistory session events).countP (SessionEvent.finishes session) =
      events.countP (SessionEvent.finishes session) := by
  rw [sessionHistory, countP_filter]
  congr 1
  funext event
  cases event <;> simp [SessionEvent.finishes, SessionEvent.session?]

theorem finishesByOutcome_iff (env : SessionEnvironment S R E)
    (method : Transactional E) (session : ℕ) (outcome : Outcome E) :
    FinishesByOutcome env method session outcome ↔
      (finishEvents env method session outcome).countP (SessionEvent.finishes session) = 1 ∧
        (.committed session ∈ finishEvents env method session outcome ↔
          outcome = .returned) := by
  cases outcome with
  | returned =>
    cases hcommit : env.commit session 0 with
    | none =>
      simp [FinishesByOutcome, finishEvents, hcommit, SessionEvent.finishes]
    | some exc =>
      by_cases hrollback : method.rollbackFor exc = true
      · by_cases hanswer : env.rollback session = none <;>
          simp [FinishesByOutcome, finishEvents, exceptionEvents, hcommit, hrollback, hanswer]
      · by_cases hanswer : env.commit session 1 = none <;>
          simp [FinishesByOutcome, finishEvents, exceptionEvents,
            hcommit, hrollback, hanswer, SessionEvent.finishes]
  | raised exc =>
    by_cases hrollback : method.rollbackFor exc = true
    · by_cases hanswer : env.rollback session = none <;>
        simp [FinishesByOutcome, finishEvents, exceptionEvents, hrollback,
          hanswer, SessionEvent.finishes]
    · by_cases hanswer : env.commit session 0 = none <;>
        simp [FinishesByOutcome, finishEvents, exceptionEvents, hrollback, hanswer]

theorem Rounds.history {low high : ℕ} {event : SessionEvent S R E}
    (hrounds : Rounds env low high events) (hevent : event ∈ events)
    (hsession : event.session? = some session) :
    ∃ service method outcome, sessionHistory session events =
      .opened session service :: .ended session method outcome ::
        finishEvents env method session outcome := by
  rcases hrounds.round session with hnil | hhistory
  · rw [← mem_sessionHistory session events hsession, hnil] at hevent
    cases hevent
  · exact hhistory

theorem ended_mem_iff {service : S} {method called : Transactional E}
    {outcome result : Outcome E} (hhistory : sessionHistory session events =
      .opened session service :: .ended session method outcome ::
        finishEvents env method session outcome) :
    .ended session called result ∈ events ↔ called = method ∧ result = outcome := by
  have hended : ∀ attempts exc, .ended session called result ∉
      exceptionEvents env method session attempts exc := by
    intro attempts exc hmem
    unfold exceptionEvents at hmem
    split at hmem <;> split at hmem <;> simp at hmem
  have hfinish : .ended session called result ∉ finishEvents env method session outcome := by
    intro hmem
    cases outcome with
    | returned =>
      unfold finishEvents at hmem
      cases hcommit : env.commit session 0 with
      | none =>
        rw [hcommit] at hmem
        cases mem_singleton.mp hmem
      | some exc =>
        rw [hcommit] at hmem
        exact hended 1 exc hmem
    | raised exc => exact hended 0 exc hmem
  rw [← mem_sessionHistory session events rfl, hhistory]
  simp [hfinish]

theorem SessionBody.finishedOnce_iff (env : SessionEnvironment S R E)
    (service : S) (body : SessionBody S E) :
    FinishedOnce (body.trace env service) ↔ ∀ session method outcome,
        .ended session method outcome ∈ body.trace env service →
        FinishesByOutcome env method session outcome := by
  obtain ⟨events, hevents, hrounds⟩ :=
    body.run_runsRounds env service SessionState.initial
  have htrace : body.trace env service = events := hevents
  rw [htrace]
  have hfinished : ∀ session opener method outcome, sessionHistory session events =
        .opened session opener :: .ended session method outcome ::
          finishEvents env method session outcome →
      (FinishesByOutcome env method session outcome ↔
        events.countP (SessionEvent.finishes session) = 1 ∧
          (.committed session ∈ events ↔ outcome = .returned)) := by
    intro session opener method outcome hhistory
    rw [finishesByOutcome_iff, ← countP_finishes session events,
      ← mem_sessionHistory session events rfl, hhistory]
    simp [SessionEvent.finishes]
  constructor
  · intro honce session method outcome hended
    obtain ⟨opener, called, result, hhistory⟩ :=
      hrounds.history hended rfl
    obtain ⟨rfl, rfl⟩ := (ended_mem_iff hhistory).mp hended
    have hopened : .opened session opener ∈ events := by
      rw [← mem_sessionHistory session events rfl, hhistory]
      exact mem_cons_self
    obtain ⟨hcount, hcommitted, -⟩ := honce session opener hopened
    rw [hfinished session opener method outcome hhistory]
    refine ⟨hcount, hcommitted.trans ?_⟩
    constructor
    · rintro ⟨called, hreturned⟩
      exact ((ended_mem_iff hhistory).mp hreturned).2.symm
    · rintro rfl
      exact ⟨method, hended⟩
  · intro hfinishes session opener hopened
    obtain ⟨opener', method, outcome, hhistory⟩ :=
      hrounds.history hopened rfl
    have hended : .ended session method outcome ∈ events :=
      (ended_mem_iff hhistory).mpr ⟨rfl, rfl⟩
    obtain ⟨hcount, hcommitted⟩ :=
      (hfinished session opener' method outcome hhistory).mp
        (hfinishes session method outcome hended)
    refine ⟨hcount, hcommitted.trans ?_, ?_⟩
    · constructor
      · rintro rfl
        exact ⟨method, hended⟩
      · rintro ⟨called, hreturned⟩
        exact ((ended_mem_iff hhistory).mp hreturned).2.symm
    · intro called exc hraised hcommit
      have hreturned := hcommitted.mp hcommit
      rw [← ((ended_mem_iff hhistory).mp hraised).2] at hreturned
      cases hreturned

def cancelledBody : SessionBody Unit Unit :=
  .call () {} (.raises (.interrupt ())) false .returns

/-- What a cancelled body has done is committed. -/
theorem SessionBody.not_finishedOnce_cancelled : ¬ FinishedOnce
      (cancelledBody.trace (reliableSessions (R := Unit)) ()) := by
  intro honce
  have hcommitted : (.committed 0 : SessionEvent Unit Unit Unit) ∈
      cancelledBody.trace reliableSessions () := by
    simp [SessionBody.trace, SessionBody.run, cancelledBody, transactional,
      SessionState.initial, inNewSession, reliableSessions, finishSession,
      handleException, Raised.isException, SessionState.restore]
  have hended : (.ended 0 {} (.raised (.interrupt ())) : SessionEvent Unit Unit Unit) ∈
      cancelledBody.trace reliableSessions () := mem_cons_of_mem _
    mem_cons_self
  exact (honce 0 () mem_cons_self).2.2 {} (.interrupt ()) hended hcommitted

end PyFly.Data
