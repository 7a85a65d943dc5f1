import PyFly.Library.Histories
import PyFly.SessionPropagation

/-!
# The sessions which repositories are bound to

The decorator restores the active session when a call ends, and leaves the
repositories at the session which was last opened on a service that reaches
them.  The two are the same at a point of a run under a condition on the
calls before it.
-/

namespace PyFly.Data

open Library List

variable {S R E : Type} {env : SessionEnvironment S R E}

/-! ## Histories -/

def scopesStep (scopes : List (Option ℕ)) : SessionEvent S R E → List (Option ℕ)
  | .opened session _ => some session :: scopes
  | .suspended => none :: scopes
  | .restored => scopes.tail
  | _ => scopes

def scopes (events : List (SessionEvent S R E)) : List (Option ℕ) :=
  events.foldl scopesStep []

/-- The session of the innermost call in progress which opened one, if no
`NOT_SUPPORTED` call is in progress inside it. -/
def activeScope (events : List (SessionEvent S R E)) : Option ℕ :=
  (scopes events).head?.join

theorem scopes_append (events : List (SessionEvent S R E)) (event : SessionEvent S R E) :
    scopes (events ++ [event]) = scopesStep (scopes events) event := by
  simp [scopes]

def Finished (session : ℕ) (events : List (SessionEvent S R E)) : Prop :=
  .committed session ∈ events ∨ .rolledBack session ∈ events

def LastReaching (env : SessionEnvironment S R E) (repository : R)
    (events : List (SessionEvent S R E)) : Option ℕ → Prop
  | some session =>
    (∃ opener, .opened session opener ∈ events ∧ env.reaches opener repository = true) ∧
    ∀ later opener, session < later → .opened later opener ∈ events →
      env.reaches opener repository = false
  | none => ∀ session opener, .opened session opener ∈ events →
      env.reaches opener repository = false

def InOrder (env : SessionEnvironment S R E) (service : S)
    (events : List (SessionEvent S R E)) : Prop :=
  ∀ repository, env.reaches service repository = true →
    LastReaching env repository events (activeScope events)

def BoundToActive (env : SessionEnvironment S R E) (service : S)
    (active : Option ℕ) (bound : R → Option ℕ)
    (events : List (SessionEvent S R E)) : Prop :=
  ∀ repository, env.reaches service repository = true → bound repository = active ∧
      ∀ session, bound repository = some session → ¬ Finished session events

/-! ## The states of a run -/

structure Snapshot (env : SessionEnvironment S R E)
    (active : Option ℕ) (bound : R → Option ℕ)
    (events : List (SessionEvent S R E)) : Prop where
  active_eq : active = activeScope events
  bound_last : ∀ repository, LastReaching env repository events (bound repository)
  unfinished : ∀ session, some session ∈ scopes events → ¬ Finished session events

def SnapshotAt (env : SessionEnvironment S R E)
    (events : List (SessionEvent S R E)) : SessionEvent S R E → Prop
  | .point _ active bound => Snapshot env active bound events
  | _ => True

structure Consistent (env : SessionEnvironment S R E)
    (state : SessionState S R E) : Prop where
  snapshot : Snapshot env state.active state.bound state.events
  fresh : ∀ session opener, .opened session opener ∈ state.events → session < state.next
  inScope : ∀ session, some session ∈ scopes state.events → session < state.next
  finished : ∀ session, Finished session state.events → session < state.next
  points : AtEach (SnapshotAt env) state.events

variable {events : List (SessionEvent S R E)}

theorem LastReaching.eq {repository : R} {first second : Option ℕ}
    (hfirst : LastReaching env repository events first)
    (hsecond : LastReaching env repository events second) :
    first = second := by
  cases first with
  | none =>
    cases second with
    | none => rfl
    | some session =>
      obtain ⟨⟨opener, hopened, hreaches⟩, -⟩ := hsecond
      rw [hfirst session opener hopened] at hreaches
      cases hreaches
  | some session =>
    obtain ⟨⟨opener, hopened, hreaches⟩, hlater⟩ := hfirst
    cases second with
    | none =>
      rw [hsecond session opener hopened] at hreaches
      cases hreaches
    | some other =>
      obtain ⟨⟨otherOpener, hother, hotherReaches⟩, hotherLater⟩ :=
        hsecond
      have hle : other ≤ session := by
        by_contra hlt
        rw [hlater other otherOpener (by omega) hother] at hotherReaches
        cases hotherReaches
      have hge : session ≤ other := by
        by_contra hlt
        rw [hotherLater session opener (by omega) hopened] at hreaches
        cases hreaches
      rw [Nat.le_antisymm hge hle]

theorem activeScope_mem {session : ℕ} (hactive : activeScope events = some session) :
    some session ∈ scopes events := by
  unfold activeScope at hactive
  cases hscopes : scopes events with
  | nil => simp [hscopes] at hactive
  | cons scope rest =>
    rw [hscopes] at hactive
    simp only [List.head?_cons, Option.join_some] at hactive
    simp [hactive]

theorem Snapshot.bound_iff {active : Option ℕ} {bound : R → Option ℕ}
    (hsnapshot : Snapshot env active bound events) (service : S) :
    BoundToActive env service active bound events ↔ InOrder env service events := by
  constructor
  · intro hbound repository hreaches
    rw [← hsnapshot.active_eq, ← (hbound repository hreaches).1]
    exact hsnapshot.bound_last repository
  · intro horder repository hreaches
    have hequal : bound repository = active := by
      rw [hsnapshot.active_eq]
      exact (hsnapshot.bound_last repository).eq (horder repository hreaches)
    refine ⟨hequal, fun session hsession => ?_⟩
    apply hsnapshot.unfinished session
    apply activeScope_mem
    rw [← hsnapshot.active_eq, ← hequal, hsession]

/-! ## Steps of a run -/

def Closes (session : ℕ) (event : SessionEvent S R E) : Prop :=
  (∃ method outcome, event = .ended session method outcome) ∨
    event = .committed session ∨ event = .rolledBack session

theorem LastReaching.append {repository : R} {last : Option ℕ} {event : SessionEvent S R E}
    (hnot : ∀ session opener, event = .opened session opener →
      env.reaches opener repository = false)
    (hlast : LastReaching env repository events last) :
    LastReaching env repository (events ++ [event]) last := by
  cases last with
  | none =>
    intro session opener hopened
    rw [mem_append, mem_singleton] at hopened
    rcases hopened with hopened | heq
    · exact hlast session opener hopened
    · exact hnot session opener heq.symm
  | some session =>
    obtain ⟨⟨opener, hopened, hreaches⟩, hlater⟩ := hlast
    refine ⟨⟨opener, mem_append_left _ hopened, hreaches⟩, ?_⟩
    intro later other hlt hother
    rw [mem_append, mem_singleton] at hother
    rcases hother with hother | heq
    · exact hlater later other hlt hother
    · exact hnot later other heq.symm

namespace Consistent

variable {state : SessionState S R E}

theorem initial : Consistent env (SessionState.initial : SessionState S R E) where
  snapshot := {
    active_eq := rfl
    bound_last := fun _ _ _ hopened => by cases hopened
    unfinished := fun _ hscope => by cases hscope }
  fresh _ _ hopened := by cases hopened
  inScope _ hscope := by cases hscope
  finished _ hfinished := by
    rcases hfinished with hmem | hmem <;> cases hmem
  points := AtEach.nil

theorem point (hconsistent : Consistent env state) (service : S) :
    Consistent env (state.emit (.point service state.active state.bound)) := by
  constructor
  · constructor
    · rw [SessionState.emit_active, SessionState.emit_events, activeScope, scopes_append]
      exact hconsistent.snapshot.active_eq
    · intro repository
      rw [SessionState.emit_events]
      apply LastReaching.append
      · intro session opener heq
        cases heq
      · exact hconsistent.snapshot.bound_last repository
    · intro session hscope hdone
      rw [SessionState.emit_events, scopes_append] at hscope
      apply hconsistent.snapshot.unfinished session hscope
      simpa [Finished] using hdone
  · intro session opener hopened
    apply hconsistent.fresh session opener
    simpa using hopened
  · intro session hscope
    rw [SessionState.emit_events, scopes_append] at hscope
    exact hconsistent.inScope session hscope
  · intro session hdone
    apply hconsistent.finished session
    simpa [Finished] using hdone
  · exact hconsistent.points.concat hconsistent.snapshot

theorem suspend (hconsistent : Consistent env state) :
    Consistent env ({ state with active := none }.emit .suspended) := by
  constructor
  · constructor
    · rw [SessionState.emit_active, SessionState.emit_events, activeScope, scopes_append]
      rfl
    · intro repository
      rw [SessionState.emit_events]
      apply LastReaching.append
      · intro session opener heq
        cases heq
      · exact hconsistent.snapshot.bound_last repository
    · intro session hscope hdone
      rw [SessionState.emit_events, scopes_append] at hscope
      have hscope' : some session ∈ scopes state.events := by
        simpa [scopesStep] using hscope
      apply hconsistent.snapshot.unfinished session hscope'
      simpa [Finished] using hdone
  · intro session opener hopened
    apply hconsistent.fresh session opener
    simpa using hopened
  · intro session hscope
    rw [SessionState.emit_events, scopes_append] at hscope
    apply hconsistent.inScope session
    simpa [scopesStep] using hscope
  · intro session hdone
    apply hconsistent.finished session
    simpa [Finished] using hdone
  · exact hconsistent.points.concat trivial

theorem enter (hconsistent : Consistent env state) (service : S) :
    Consistent env (state.entered env service) := by
  have hevents := state.entered_events env service
  constructor
  · constructor
    · rw [hevents, activeScope, scopes_append]
      rfl
    · intro repository
      rw [hevents]
      by_cases hreaches : env.reaches service repository = true
      · have hbound : (state.entered env service).bound repository = some state.next := by
          simp [SessionState.entered, SessionState.patchRepositories, hreaches]
        rw [hbound]
        refine ⟨⟨service, by simp, hreaches⟩, ?_⟩
        intro later opener hlt hopened
        rw [mem_append, mem_singleton] at hopened
        rcases hopened with hopened | heq
        · have := hconsistent.fresh later opener hopened
          omega
        · cases heq
          omega
      · rw [Bool.not_eq_true] at hreaches
        have hbound : (state.entered env service).bound repository =
              state.bound repository := by
          simp [SessionState.entered, SessionState.patchRepositories, hreaches]
        rw [hbound]
        apply (hconsistent.snapshot.bound_last repository).append
        intro session opener heq
        cases heq
        exact hreaches
    · intro session hscope hdone
      rw [hevents, scopes_append] at hscope
      have hdone' : Finished session state.events := by
        rw [hevents] at hdone
        simpa [Finished] using hdone
      rcases mem_cons.mp hscope with heq | hscope
      · have hlt := hconsistent.finished session hdone'
        cases heq
        omega
      · exact hconsistent.snapshot.unfinished session hscope hdone'
  · intro session opener hopened
    rw [hevents, mem_append, mem_singleton] at hopened
    rcases hopened with hopened | heq
    · exact Nat.lt_succ_of_lt (hconsistent.fresh session opener hopened)
    · cases heq
      exact Nat.lt_succ_self _
  · intro session hscope
    rw [hevents, scopes_append] at hscope
    rcases mem_cons.mp hscope with heq | hscope
    · cases heq
      exact Nat.lt_succ_self _
    · exact Nat.lt_succ_of_lt (hconsistent.inScope session hscope)
  · intro session hdone
    rw [hevents] at hdone
    apply Nat.lt_succ_of_lt
    apply hconsistent.finished session
    simpa [Finished] using hdone
  · exact hconsistent.points.concat trivial

end Consistent

/-! ## Leaving a call -/

structure Closing (env : SessionEnvironment S R E) (session : ℕ)
    (state : SessionState S R E) : Prop where
  bound_last : ∀ repository, LastReaching env repository state.events (state.bound repository)
  unfinished : ∀ other, some other ∈ scopes state.events →
    other ≠ session → ¬ Finished other state.events
  fresh : ∀ opened opener, .opened opened opener ∈ state.events → opened < state.next
  inScope : ∀ other, some other ∈ scopes state.events → other < state.next
  finished : ∀ other, Finished other state.events → other < state.next
  points : AtEach (SnapshotAt env) state.events

namespace Closing

variable {session : ℕ} {state : SessionState S R E}

theorem of_consistent (hconsistent : Consistent env state) : Closing env session state where
  bound_last := hconsistent.snapshot.bound_last
  unfinished other hscope _ :=
    hconsistent.snapshot.unfinished other hscope
  fresh := hconsistent.fresh
  inScope := hconsistent.inScope
  finished := hconsistent.finished
  points := hconsistent.points

variable {event : SessionEvent S R E}

theorem scopes_emit (hcloses : Closes session event) :
    scopes (state.emit event).events = scopes state.events := by
  rw [SessionState.emit_events, scopes_append]
  rcases hcloses with ⟨method, outcome, rfl⟩ | rfl | rfl <;> rfl

theorem finished_emit {other : ℕ} (hcloses : Closes session event)
    (hdone : Finished other (state.emit event).events) :
    other = session ∨ Finished other state.events := by
  rcases hcloses with ⟨method, outcome, rfl⟩ | rfl | rfl
  · right
    simpa [Finished] using hdone
  · rcases hdone with hmem | hmem
    · rw [SessionState.emit_events, mem_append, mem_singleton]
        at hmem
      rcases hmem with hmem | heq
      · exact Or.inr (Or.inl hmem)
      · cases heq
        exact Or.inl rfl
    · right
      right
      simpa using hmem
  · rcases hdone with hmem | hmem
    · right
      left
      simpa using hmem
    · rw [SessionState.emit_events, mem_append, mem_singleton]
        at hmem
      rcases hmem with hmem | heq
      · exact Or.inr (Or.inr hmem)
      · cases heq
        exact Or.inl rfl

theorem emit (hclosing : Closing env session state)
    (hcloses : Closes session event) (hsession : session < state.next) :
    Closing env session (state.emit event) := by
  have hopened : ∀ opened opener, event ≠ .opened opened opener := by
    intro opened opener heq
    subst heq
    rcases hcloses with ⟨method, outcome, heq⟩ | heq | heq <;> cases heq
  constructor
  · intro repository
    rw [SessionState.emit_events]
    apply (hclosing.bound_last repository).append
    exact fun opened opener heq => absurd heq (hopened opened opener)
  · intro other hscope hother hdone
    rw [scopes_emit hcloses] at hscope
    rcases finished_emit hcloses hdone with heq | hdone
    · exact hother heq
    · exact hclosing.unfinished other hscope hother hdone
  · intro opened opener hmem
    rw [SessionState.emit_events, mem_append, mem_singleton] at hmem
    rcases hmem with hmem | heq
    · exact hclosing.fresh opened opener hmem
    · exact absurd heq.symm (hopened opened opener)
  · intro other hscope
    rw [scopes_emit hcloses] at hscope
    exact hclosing.inScope other hscope
  · intro other hdone
    rcases finished_emit hcloses hdone with heq | hdone
    · rw [heq]
      exact hsession
    · exact hclosing.finished other hdone
  · apply hclosing.points.concat
    rcases hcloses with ⟨method, outcome, rfl⟩ | rfl | rfl <;> trivial

theorem restore {scope existing : Option ℕ} {rest : List (Option ℕ)}
    (hclosing : Closing env session state)
    (hscopes : scopes state.events = scope :: rest)
    (hsession : some session ∉ rest)
    (hexisting : existing = rest.head?.join) :
    Consistent env (state.restore existing) ∧
      scopes (state.restore existing).events = rest := by
  have hevents : (state.restore existing).events = state.events ++ [.restored] := rfl
  have hrest : scopes (state.restore existing).events = rest := by
    rw [hevents, scopes_append, hscopes]
    rfl
  have hdone : ∀ other, Finished other (state.restore existing).events →
      Finished other state.events := by
    intro other hdone
    rw [hevents] at hdone
    simpa [Finished] using hdone
  refine ⟨?_, hrest⟩
  constructor
  · constructor
    · rw [activeScope, hrest]
      exact hexisting
    · intro repository
      rw [hevents]
      apply (hclosing.bound_last repository).append
      intro opened opener heq
      cases heq
    · intro other hscope hfinished
      rw [hrest] at hscope
      apply hclosing.unfinished other _ _ (hdone other hfinished)
      · rw [hscopes]
        exact mem_cons_of_mem _ hscope
      · rintro rfl
        exact hsession hscope
  · intro opened opener hmem
    apply hclosing.fresh opened opener
    rw [hevents] at hmem
    simpa using hmem
  · intro other hscope
    rw [hrest] at hscope
    apply hclosing.inScope
    rw [hscopes]
    exact mem_cons_of_mem _ hscope
  · intro other hfinished
    exact hclosing.finished other (hdone other hfinished)
  · exact hclosing.points.concat trivial

end Closing

theorem Closing.extend {session : ℕ} {state : SessionState S R E}
    (hclosing : Closing env session state)
    (hcloses : ∀ event ∈ events, Closes session event)
    (hsession : session < state.next) :
    Closing env session (state.extend events) ∧
      scopes (state.extend events).events = scopes state.events := by
  induction events generalizing state with
  | nil =>
    rw [SessionState.extend_nil]
    exact ⟨hclosing, rfl⟩
  | cons event rest ih =>
    have hevent := hcloses event mem_cons_self
    rw [SessionState.extend_cons]
    obtain ⟨hrest, hscopes⟩ := ih (hclosing.emit hevent hsession)
      (fun other hother => hcloses other (mem_cons_of_mem _ hother))
      hsession
    exact ⟨hrest, hscopes.trans (scopes_emit hevent)⟩

theorem closes_exceptionEvents (env : SessionEnvironment S R E)
    (method : Transactional E) (session attempts : ℕ) (exc : Raised E)
    (event : SessionEvent S R E)
    (hevent : event ∈ exceptionEvents env method session attempts exc) :
    Closes session event := by
  unfold exceptionEvents at hevent
  split at hevent <;> split at hevent <;> simp_all [Closes]

theorem closes_finishEvents (env : SessionEnvironment S R E)
    (method : Transactional E) (session : ℕ) (outcome : Outcome E)
    (event : SessionEvent S R E)
    (hevent : event ∈ finishEvents env method session outcome) :
    Closes session event := by
  cases outcome with
  | returned =>
    unfold finishEvents at hevent
    cases hcommit : env.commit session 0 with
    | none =>
      rw [hcommit] at hevent
      exact Or.inr (Or.inl (mem_singleton.mp hevent))
    | some exc =>
      rw [hcommit] at hevent
      exact closes_exceptionEvents env method session 1 exc event hevent
  | raised exc =>
    exact closes_exceptionEvents env method session 0 exc event hevent

theorem closes_ending (method : Transactional E) (session : ℕ) (outcome : Outcome E) :
    ∀ event ∈ (.ended session method outcome ::
        finishEvents env method session outcome : List (SessionEvent S R E)),
      Closes session event := by
  intro event hevent
  rcases mem_cons.mp hevent with rfl | hevent
  · exact Or.inl ⟨method, outcome, rfl⟩
  · exact closes_finishEvents env method session outcome event hevent

/-! ## Runs -/

def KeepsConsistent (env : SessionEnvironment S R E)
    (func : SessionRun S R E) : Prop :=
  ∀ state, Consistent env state → Consistent env (func state).2 ∧
      scopes (func state).2.events = scopes state.events

theorem KeepsConsistent.inNewSession {func : SessionRun S R E}
    (hfunc : KeepsConsistent env func) (service : S)
    (method : Transactional E) :
    KeepsConsistent env (inNewSession env service method func) := by
  intro state hconsistent
  have hcreated : Consistent env { state with next := state.next + 1 } := {
    snapshot := hconsistent.snapshot
    fresh := fun session opener hopened =>
      Nat.lt_succ_of_lt (hconsistent.fresh session opener hopened)
    inScope := fun session hscope =>
      Nat.lt_succ_of_lt (hconsistent.inScope session hscope)
    finished := fun session hdone =>
      Nat.lt_succ_of_lt (hconsistent.finished session hdone)
    points := hconsistent.points }
  rcases inNewSession_cases env service method func state with
    hstate | hstate | hstate
  · rw [hstate]
    exact ⟨hconsistent, rfl⟩
  · rw [hstate]
    exact ⟨hcreated, rfl⟩
  · obtain ⟨hleft, hscopes⟩ :=
      hfunc (state.entered env service) (hconsistent.enter service)
    rw [SessionState.entered_events, scopes_append] at hscopes
    have hsession : state.next <
        (func (state.entered env service)).2.next := by
      apply hleft.inScope
      rw [hscopes]
      exact mem_cons_self
    have houter : some state.next ∉ scopes state.events := fun hscope =>
      absurd (hconsistent.inScope _ hscope) (Nat.lt_irrefl _)
    obtain ⟨hclosing, hsame⟩ := (Closing.of_consistent hleft).extend
      (closes_ending method state.next
        (func (state.entered env service)).1) hsession
    rw [hstate]
    exact hclosing.restore (hsame.trans hscopes) houter hconsistent.snapshot.active_eq

theorem KeepsConsistent.transactional {func : SessionRun S R E}
    (hfunc : KeepsConsistent env func) (service : S)
    (method : Transactional E) :
    KeepsConsistent env (transactional env service method func) := by
  intro state hconsistent
  have hnew := hfunc.inNewSession service method state hconsistent
  unfold PyFly.Data.transactional
  cases method.propagation with
  | never =>
    simp only
    split
    · exact ⟨hconsistent, rfl⟩
    · exact hfunc state hconsistent
  | notSupported =>
    obtain ⟨hleft, hscopes⟩ := hfunc _ hconsistent.suspend
    rw [SessionState.emit_events, scopes_append] at hscopes
    have hsession : some state.next ∉ scopes state.events := fun hscope =>
      absurd (hconsistent.inScope _ hscope) (Nat.lt_irrefl _)
    exact (Closing.of_consistent hleft).restore hscopes hsession hconsistent.snapshot.active_eq
  | supports => exact hfunc state hconsistent
  | mandatory =>
    simp only
    split
    · exact ⟨hconsistent, rfl⟩
    · exact hfunc state hconsistent
  | required =>
    simp only
    split
    · exact hfunc state hconsistent
    · exact hnew
  | requiresNew => exact hnew

theorem SessionBody.run_keepsConsistent (env : SessionEnvironment S R E)
    (body : SessionBody S E) (service : S) :
    KeepsConsistent env (body.run env service) := by
  induction body generalizing service with
  | returns => exact fun state hconsistent => ⟨hconsistent, rfl⟩
  | raises exc => exact fun state hconsistent => ⟨hconsistent, rfl⟩
  | point rest ih =>
    intro state hconsistent
    obtain ⟨hafter, hscopes⟩ :=
      ih service _ (hconsistent.point service)
    refine ⟨hafter, ?_⟩
    rw [SessionState.emit_events, scopes_append] at hscopes
    exact hscopes
  | call callee method body handled rest ihBody ihRest =>
    intro state hconsistent
    have hcalled :=
      (ihBody callee).transactional callee method state hconsistent
    rcases hcall : PyFly.Data.transactional env callee method
      (body.run env callee) state with ⟨outcome, after⟩
    rw [hcall] at hcalled
    simp only [SessionBody.run, hcall]
    have hrest : Consistent env (rest.run env service after).2 ∧
        scopes (rest.run env service after).2.events = scopes state.events := by
      obtain ⟨hafter, hscopes⟩ := ihRest service after hcalled.1
      exact ⟨hafter, hscopes.trans hcalled.2⟩
    cases outcome with
    | returned => exact hrest
    | raised exc =>
      cases handled with
      | false => exact hcalled
      | true => exact hrest

def SessionBody.AtPoints (env : SessionEnvironment S R E) (service : S) (body : SessionBody S E)
    (property : S → Option ℕ → (R → Option ℕ) → List (SessionEvent S R E) → Prop) : Prop :=
  ∀ front back callee active bound,
    body.trace env service = front ++ .point callee active bound :: back →
    property callee active bound front

theorem SessionBody.boundToActive_iff (env : SessionEnvironment S R E)
    (service : S) (body : SessionBody S E) :
    body.AtPoints env service (BoundToActive env) ↔ body.AtPoints env service
        (fun callee _ _ events => InOrder env callee events) := by
  have hsnapshots := (body.run_keepsConsistent env service _ Consistent.initial).1.points
  constructor
  · intro hbound front back callee active bound hsplit
    have hsnapshot : Snapshot env active bound front :=
      hsnapshots front _ back hsplit
    rw [← hsnapshot.bound_iff]
    exact hbound front back callee active bound hsplit
  · intro horder front back callee active bound hsplit
    have hsnapshot : Snapshot env active bound front :=
      hsnapshots front _ back hsplit
    rw [hsnapshot.bound_iff]
    exact horder front back callee active bound hsplit

/-- A transaction in which another method of the service is called, and which
comes to a point afterwards. -/
def pointAfterNested (propagation : Propagation) : SessionBody Unit Unit :=
  .call () {} (.call () { propagation := propagation } .returns false
    (.point .returns)) false .returns

/-- After a nested `REQUIRES_NEW` call the repositories of the outer body are
bound to the finished session. -/
theorem SessionBody.not_boundToActive_requiresNew : ¬ (pointAfterNested .requiresNew).AtPoints
      (reliableSessions (R := Unit)) () (BoundToActive reliableSessions) := by
  intro hbound
  have hpoint := hbound [.opened 0 (), .opened 1 (),
      .ended 1 { propagation := .requiresNew } .returned, .committed 1,
      .restored]
    [.ended 0 {} .returned, .committed 0, .restored]
    () (some 0) (fun _ => some 1) rfl () rfl
  exact absurd hpoint.1 (by decide)

end PyFly.Data
