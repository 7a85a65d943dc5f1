import PyFly.Library.Histories
import PyFly.SessionFilter

/-!
# Logging out

A request which overlaps with the one that invalidates the session, and which
has changed its own `HttpSession`, writes the session back after the delete.
-/

namespace PyFly.Session

open Library List

variable {V ι : Type} [DecidableEq ι]

structure LogsOut (execution : Execution (FilterRun ι V) (FilterEvent ι V)) :
    Prop where
  gone : ∀ request id, .deleted request id ∈ execution.trace → id ∉ execution.state.store.keys
  refused : AtEach (fun before event => ∀ request id,
    event = .obtained request id → ∀ other, .deleted other id ∉ before)
    execution.trace

def FilterRun.Ended (run : FilterRun ι V) (id : String) : Prop :=
  ∃ request session, run.requests request = .done session ∧
    session.invalidated = true ∧ session.id = id

def LeavesEnded (json : Json V) (backend : Backend) (run : FilterRun ι V)
    (pick : FilterPick ι V) : Prop :=
  ∀ request raised session, pick = .finish request raised →
    run.requests request = .handling session →
      session.invalidated = false → session.modified = true →
        (backend.entry json session.data run.heap).isSome → ¬ run.Ended session.id

/-! ## What a step does to the store -/

variable {json : Json V} {backend : Backend}

variable {cookie : Option String}

omit [DecidableEq ι] in
theorem mem_keys_of_stored {store : Dict String (Entry V)}
    {found : String × Entry V} (hstored : stored cookie store = some found) :
    found.1 ∈ store.keys := by
  cases cookie with
  | none => simp [stored] at hstored
  | some id =>
    simp only [stored] at hstored
    split at hstored
    · simp at hstored
    · obtain ⟨entry, hentry, rfl⟩ := Option.map_eq_some_iff.mp hstored
      exact Dict.mem_keys_of_get? hentry

variable {events : List (FilterEvent ι V)}

theorem loadOrCreate_cases {request : ι} {now : ℚ} {newId : String} {run next : FilterRun ι V}
    (hload : loadOrCreate json request cookie now newId run = some (next, events)) :
    ∃ session, next.store = run.store ∧ session.invalidated = false ∧
      next.requests = Function.update run.requests request (.handling session) ∧
      (session.id ∈ run.store.keys ∧ next.used = run.used ∧
          events = [.obtained request session.id] ∨
        session.id ∉ run.used ∧ next.used = session.id :: run.used ∧
          events = [.created request session.id]) := by
  unfold loadOrCreate at hload
  cases hstored : stored cookie run.store with
  | some found =>
    simp only [hstored] at hload
    obtain ⟨rfl, rfl⟩ := Prod.mk.inj (Option.some.inj hload)
    exact ⟨_, rfl, rfl, rfl, .inl ⟨mem_keys_of_stored hstored, rfl, rfl⟩⟩
  | none =>
    simp only [hstored] at hload
    split at hload
    · simp at hload
    · next hunused =>
      obtain ⟨rfl, rfl⟩ := Prod.mk.inj (Option.some.inj hload)
      exact ⟨_, rfl, rfl, rfl, .inr ⟨hunused, rfl, rfl⟩⟩

omit [DecidableEq ι] in
theorem persist_cases (json : Json V) (backend : Backend) (request : ι)
    (session : HttpSession) (run : FilterRun ι V) :
    (session.invalidated = true ∧ persist json backend request session run =
        (run.store.erase session.id, [.deleted request session.id], false)) ∨
    (session.invalidated = false ∧ session.modified = true ∧
      ∃ entry, backend.entry json session.data run.heap = some entry ∧
        persist json backend request session run =
          (run.store.set session.id entry, [.saved request session.id], false)) ∨
    (session.invalidated = false ∧ session.modified = true ∧
      backend.entry json session.data run.heap = none ∧
      persist json backend request session run =
        (run.store, [.unsaved request session.id], true)) ∨
    (session.invalidated = false ∧ session.modified = false ∧
      persist json backend request session run = (run.store, [], false)) := by
  unfold persist
  cases hinvalidated : session.invalidated with
  | true => simp
  | false =>
    cases hmodified : session.modified with
    | true =>
      cases backend.entry json session.data run.heap <;> simp
    | false => simp

theorem finish_of_persist {request : ι} (raised : Bool) {session : HttpSession}
    {run : FilterRun ι V} {store : Dict String (Entry V)} {failed : Bool}
    (hpersist : persist json backend request session run = (store, events, failed)) :
    ∃ response : List (FilterEvent ι V),
      (∀ event ∈ response, ∃ cookie, event = .responded request cookie) ∧
      finish json backend request raised session run = ({ run with
            store := store
            requests := Function.update run.requests request (.done session) },
          events ++ response) := by
  refine ⟨if raised || failed then []
    else [.responded request (setCookie session)], ?_, ?_⟩
  · split <;> simp
  · rw [finish, hpersist]

def FilterEvent.Quiet (event : FilterEvent ι V) : Prop :=
  (∀ request id, event ≠ .obtained request id) ∧ ∀ request id, event ≠ .deleted request id

theorem finish_cases {request : ι} {raised : Bool} {session : HttpSession}
    {run next : FilterRun ι V}
    (hfinish : finish json backend request raised session run = (next, events)) :
    next.used = run.used ∧
      next.requests = Function.update run.requests request (.done session) ∧
      ∃ written quiet : List (FilterEvent ι V), events = written ++ quiet ∧
        (∀ event ∈ quiet, event.Quiet) ∧
        (session.invalidated = true ∧ next.store = run.store.erase session.id ∧
            written = [.deleted request session.id] ∨
          session.invalidated = false ∧ session.modified = true ∧
            (∃ entry, backend.entry json session.data run.heap = some entry ∧
              next.store = run.store.set session.id entry) ∧ written = [] ∨
          session.invalidated = false ∧ (session.modified = true →
              backend.entry json session.data run.heap = none) ∧
            next.store = run.store ∧ written = []) := by
  have hquiet : ∀ response : List (FilterEvent ι V),
      (∀ event ∈ response, ∃ cookie, event = .responded request cookie) →
        ∀ event ∈ response, event.Quiet := by
    intro response hresponse event hmem
    obtain ⟨cookie, rfl⟩ := hresponse event hmem
    exact ⟨nofun, nofun⟩
  obtain ⟨hinvalidated, hpersist⟩ | ⟨hinvalidated, hmodified, entry, hentry, hpersist⟩ |
    ⟨hinvalidated, hmodified, hentry, hpersist⟩ |
    ⟨hinvalidated, hmodified, hpersist⟩ :=
      persist_cases json backend request session run
  · obtain ⟨response, hresponse, heq⟩ := finish_of_persist raised hpersist
    obtain ⟨rfl, rfl⟩ := Prod.mk.inj (hfinish.symm.trans heq)
    exact ⟨rfl, rfl, _, response, rfl, hquiet response hresponse, .inl ⟨hinvalidated, rfl, rfl⟩⟩
  · obtain ⟨response, hresponse, heq⟩ := finish_of_persist raised hpersist
    obtain ⟨rfl, rfl⟩ := Prod.mk.inj (hfinish.symm.trans heq)
    refine ⟨rfl, rfl, [], .saved request session.id :: response, rfl, ?_,
      .inr (.inl ⟨hinvalidated, hmodified, ⟨entry, hentry, rfl⟩, rfl⟩)⟩
    exact forall_mem_cons.mpr ⟨⟨nofun, nofun⟩, hquiet response hresponse⟩
  · obtain ⟨response, hresponse, heq⟩ := finish_of_persist raised hpersist
    obtain ⟨rfl, rfl⟩ := Prod.mk.inj (hfinish.symm.trans heq)
    refine ⟨rfl, rfl, [], .unsaved request session.id :: response, rfl, ?_,
      .inr (.inr ⟨hinvalidated, fun _ => hentry, rfl, rfl⟩)⟩
    exact forall_mem_cons.mpr ⟨⟨nofun, nofun⟩, hquiet response hresponse⟩
  · obtain ⟨response, hresponse, heq⟩ := finish_of_persist raised hpersist
    obtain ⟨rfl, rfl⟩ := Prod.mk.inj (hfinish.symm.trans heq)
    exact ⟨rfl, rfl, [], _, rfl, hquiet _ hresponse,
      .inr (.inr ⟨hinvalidated, by simp [hmodified], rfl, rfl⟩)⟩

variable {pick : FilterPick ι V}

theorem filter_step_cases {run next : FilterRun ι V}
    (hstep : (filterMachine json backend).step run pick = some (next, events)) :
    (∃ request cookie now newId, pick = .load request cookie now newId ∧
      run.requests request = .waiting ∧
      loadOrCreate json request cookie now newId run = some (next, events)) ∨
    (∃ request session changed event, (∀ other raised, pick ≠ .finish other raised) ∧
      run.requests request = .handling session ∧ changed.id = session.id ∧
      next.store = run.store ∧ next.used = run.used ∧
      next.requests = Function.update run.requests request (.handling changed) ∧
      events = [event] ∧ event.Quiet) ∨
    (∃ request raised session, pick = .finish request raised ∧
      run.requests request = .handling session ∧
      finish json backend request raised session run = (next, events)) ∨
    (∃ id, pick = .expire id ∧ next = { run with store := run.store.erase id } ∧
      events = [.expired id]) := by
  cases pick with
  | load request cookie now newId =>
    simp only [filterMachine] at hstep
    split at hstep
    · next hwaiting =>
      exact .inl ⟨request, cookie, now, newId, rfl, hwaiting, hstep⟩
    · simp at hstep
  | set request name value =>
    simp only [filterMachine] at hstep
    split at hstep
    · next session hhandling =>
      obtain ⟨rfl, rfl⟩ := Prod.mk.inj (Option.some.inj hstep)
      exact .inr (.inl ⟨request, session, { session with modified := true },
        _, nofun, hhandling, rfl, rfl, rfl, rfl, rfl, ⟨nofun, nofun⟩⟩)
    · simp at hstep
  | remove request name =>
    simp only [filterMachine] at hstep
    split at hstep
    · next session hhandling =>
      obtain ⟨rfl, rfl⟩ := Prod.mk.inj (Option.some.inj hstep)
      obtain ⟨modified, hsession, -⟩ :=
        session.removeAttribute_eq name run.heap
      exact .inr (.inl ⟨request, session,
        (session.removeAttribute name run.heap).1, _, nofun, hhandling,
        by rw [hsession], rfl, rfl, rfl, rfl, nofun, nofun⟩)
    · simp at hstep
  | invalidate request =>
    simp only [filterMachine] at hstep
    split at hstep
    · next session hhandling =>
      obtain ⟨rfl, rfl⟩ := Prod.mk.inj (Option.some.inj hstep)
      exact .inr (.inl ⟨request, session, session.invalidate, _, nofun,
        hhandling, rfl, rfl, rfl, rfl, rfl, ⟨nofun, nofun⟩⟩)
    · simp at hstep
  | finish request raised =>
    simp only [filterMachine] at hstep
    split at hstep
    · next session hhandling =>
      exact .inr (.inr (.inl ⟨request, raised, session, rfl, hhandling, Option.some.inj hstep⟩))
    · simp at hstep
  | expire id =>
    obtain ⟨rfl, rfl⟩ := Prod.mk.inj (Option.some.inj hstep)
    exact .inr (.inr (.inr ⟨id, rfl, rfl, rfl⟩))

/-! ## What the history records -/

structure Tracked (execution : Execution (FilterRun ι V) (FilterEvent ι V)) :
    Prop where
  ended : ∀ id, execution.state.Ended id ↔ ∃ request, .deleted request id ∈ execution.trace
  stored : ∀ id ∈ execution.state.store.keys, id ∈ execution.state.used
  known : ∀ request session, execution.state.requests request = .handling session ∨
      execution.state.requests request = .done session →
    session.id ∈ execution.state.used

variable {run next : FilterRun ι V} {request : ι} {session : HttpSession}

theorem ended_of_handling (hbefore : ∀ other, run.requests request ≠ .done other)
    (hrequests : next.requests =
      Function.update run.requests request (.handling session)) (id : String) :
    next.Ended id ↔ run.Ended id := by
  constructor
  · rintro ⟨other, ended, hdone, hended⟩
    rw [hrequests] at hdone
    by_cases hother : other = request
    · simp [hother] at hdone
    · rw [Function.update_of_ne hother] at hdone
      exact ⟨other, ended, hdone, hended⟩
  · rintro ⟨other, ended, hdone, hended⟩
    refine ⟨other, ended, ?_, hended⟩
    have hother : other ≠ request := by
      rintro rfl
      exact hbefore ended hdone
    rw [hrequests, Function.update_of_ne hother, hdone]

theorem ended_of_done (hbefore : run.requests request = .handling session)
    (hrequests : next.requests =
      Function.update run.requests request (.done session)) (id : String) :
    next.Ended id ↔ run.Ended id ∨ session.invalidated = true ∧ session.id = id := by
  constructor
  · rintro ⟨other, ended, hdone, hended⟩
    rw [hrequests] at hdone
    by_cases hother : other = request
    · rw [hother, Function.update_self] at hdone
      rw [← Phase.done.inj hdone] at hended
      exact .inr hended
    · rw [Function.update_of_ne hother] at hdone
      exact .inl ⟨other, ended, hdone, hended⟩
  · rintro (⟨other, ended, hdone, hended⟩ | hended)
    · refine ⟨other, ended, ?_, hended⟩
      have hother : other ≠ request := by
        rintro rfl
        rw [hbefore] at hdone
        cases hdone
      rw [hrequests, Function.update_of_ne hother, hdone]
    · exact ⟨request, session, by rw [hrequests, Function.update_self], hended⟩

theorem known_update {phase : Phase}
    (hknown : ∀ other session, run.requests other = .handling session ∨
      run.requests other = .done session → session.id ∈ run.used)
    (hused : ∀ id ∈ run.used, id ∈ next.used)
    (hrequests : next.requests = Function.update run.requests request phase)
    (hphase : ∀ session, phase = .handling session ∨ phase = .done session →
      session.id ∈ next.used) (other : ι) (session : HttpSession)
    (hother : next.requests other = .handling session ∨ next.requests other = .done session) :
    session.id ∈ next.used := by
  rw [hrequests] at hother
  by_cases hsame : other = request
  · rw [hsame, Function.update_self] at hother
    exact hphase session hother
  · rw [Function.update_of_ne hsame] at hother
    exact hused _ (hknown other session hother)

namespace Tracked

variable {trace : List (FilterEvent ι V)}

theorem load (htracked : Tracked ⟨run, trace⟩) {cookie : Option String}
    {now : ℚ} {newId : String} {events : List (FilterEvent ι V)}
    (hwaiting : run.requests request = .waiting)
    (hload : loadOrCreate json request cookie now newId run = some (next, events)) :
    Tracked ⟨next, trace ++ events⟩ := by
  obtain ⟨session, hstore, -, hrequests, hid⟩ := loadOrCreate_cases hload
  have hbefore : ∀ other, run.requests request ≠ .done other := by
    simp [hwaiting]
  have hused : ∀ id ∈ run.used, id ∈ next.used := by
    rcases hid with ⟨-, hsame, -⟩ | ⟨-, hmore, -⟩
    · exact hsame ▸ fun id hmem => hmem
    · exact hmore ▸ fun id hmem => mem_cons_of_mem _ hmem
  have hnew : session.id ∈ next.used := by
    rcases hid with ⟨hstored, hsame, -⟩ | ⟨-, hmore, -⟩
    · exact hsame ▸ htracked.stored _ hstored
    · exact hmore ▸ mem_cons_self
  constructor
  · intro id
    rw [ended_of_handling hbefore hrequests, htracked.ended]
    rcases hid with ⟨-, -, rfl⟩ | ⟨-, -, rfl⟩ <;> simp
  · intro id hmem
    rw [hstore] at hmem
    exact hused id (htracked.stored id hmem)
  · apply known_update htracked.known hused hrequests
    rintro other (hother | hother)
    · exact Phase.handling.inj hother ▸ hnew
    · cases hother

theorem act (htracked : Tracked ⟨run, trace⟩) {changed : HttpSession} {event : FilterEvent ι V}
    (hhandling : run.requests request = .handling session)
    (hid : changed.id = session.id) (hstore : next.store = run.store)
    (hused : next.used = run.used)
    (hrequests : next.requests = Function.update run.requests request (.handling changed))
    (hevent : event.Quiet) : Tracked ⟨next, trace ++ [event]⟩ := by
  constructor
  · intro id
    rw [ended_of_handling (by simp [hhandling]) hrequests, htracked.ended]
    have hnot : ∀ other, .deleted other id ≠ event :=
      fun other => (hevent.2 other id).symm
    simp [hnot]
  · intro id hmem
    rw [hstore] at hmem
    exact hused ▸ htracked.stored id hmem
  · apply known_update htracked.known (hused ▸ fun _ hmem => hmem) hrequests
    rintro other (hother | hother)
    · rw [← Phase.handling.inj hother, hid, hused]
      exact htracked.known request session (.inl hhandling)
    · cases hother

theorem finish (htracked : Tracked ⟨run, trace⟩) {raised : Bool}
    {events : List (FilterEvent ι V)}
    (hhandling : run.requests request = .handling session)
    (hfinish : finish json backend request raised session run = (next, events)) :
    Tracked ⟨next, trace ++ events⟩ := by
  have hknown := htracked.known request session (.inl hhandling)
  obtain ⟨hused, hrequests, written, quiet, rfl, hquiet, hstore⟩ :=
    finish_cases hfinish
  have hsilent : ∀ other id, .deleted other id ∉ quiet :=
    fun other id hmem => (hquiet _ hmem).2 other id rfl
  constructor
  · intro id
    rw [ended_of_done hhandling hrequests, htracked.ended]
    rcases hstore with ⟨hinvalidated, -, rfl⟩ | ⟨hinvalidated, -, -, rfl⟩ |
      ⟨hinvalidated, -, -, rfl⟩
    · simp [hinvalidated, hsilent, exists_or, eq_comm]
    · simp [hinvalidated, hsilent]
    · simp [hinvalidated, hsilent]
  · intro id hmem
    rw [hused]
    rcases hstore with ⟨-, hstore, -⟩ | ⟨-, -, ⟨entry, -, hstore⟩, -⟩ | ⟨-, -, hstore, -⟩
    · rw [hstore, Dict.mem_keys_erase] at hmem
      exact htracked.stored id hmem.1
    · rw [hstore, Dict.mem_keys_set] at hmem
      rcases hmem with rfl | hold
      · exact hknown
      · exact htracked.stored id hold
    · rw [hstore] at hmem
      exact htracked.stored id hmem
  · apply known_update htracked.known (hused ▸ fun _ hmem => hmem) hrequests
    rintro other (hother | hother)
    · cases hother
    · rw [← Phase.done.inj hother, hused]
      exact hknown

omit [DecidableEq ι] in
theorem expire (htracked : Tracked ⟨run, trace⟩) (id : String) :
    Tracked ⟨{ run with store := run.store.erase id },
      trace ++ [.expired id]⟩ := by
  constructor
  · intro other
    have hended := htracked.ended other
    simpa [FilterRun.Ended] using hended
  · intro other hmem
    exact htracked.stored other (Dict.mem_keys_erase.mp hmem).1
  · exact htracked.known

theorem step {execution : Execution (FilterRun ι V) (FilterEvent ι V)}
    {pick : FilterPick ι V} {next : FilterRun ι V}
    {events : List (FilterEvent ι V)} (htracked : Tracked execution)
    (hstep : (filterMachine json backend).step execution.state pick = some (next, events)) :
    Tracked ⟨next, execution.trace ++ events⟩ := by
  obtain ⟨request, cookie, now, newId, -, hwaiting, hload⟩ |
    ⟨request, session, changed, event, -, hhandling, hid, hstore, hused,
      hrequests, hevents, hquiet⟩ |
    ⟨request, raised, session, -, hhandling, hfinish⟩ |
    ⟨id, -, hnext, hevents⟩ := filter_step_cases hstep
  · exact htracked.load hwaiting hload
  · rw [hevents]
    exact htracked.act hhandling hid hstore hused hrequests hquiet
  · exact htracked.finish hhandling hfinish
  · rw [hnext, hevents]
    exact htracked.expire id

omit [DecidableEq ι] in
theorem start (heap : Heap V) (store : Dict String (Entry V)) :
    Tracked (⟨FilterRun.start heap store, []⟩ :
      Execution (FilterRun ι V) (FilterEvent ι V)) := by
  constructor
  · simp [FilterRun.Ended, FilterRun.start]
  · exact fun id hmem => hmem
  · rintro request session (hphase | hphase) <;> cases hphase

end Tracked

/-! ## Every run -/

omit [DecidableEq ι] in
theorem LogsOut.of_quiet {trace : List (FilterEvent ι V)} (hlogsOut : LogsOut ⟨run, trace⟩)
    (hquiet : ∀ event ∈ events, event.Quiet)
    (hstore : ∀ id ∈ next.store.keys, id ∈ run.store.keys ∨
      ∀ request, .deleted request id ∉ trace) :
    LogsOut ⟨next, trace ++ events⟩ := by
  constructor
  · intro request id hmem hstored
    rcases mem_append.mp hmem with hold | hnew
    · rcases hstore id hstored with hkept | hfree
      · exact hlogsOut.gone request id hold hkept
      · exact hfree request hold
    · exact (hquiet _ hnew).2 request id rfl
  · apply hlogsOut.refused.append
    intro event hmem before request id hobtained
    exact absurd hobtained ((hquiet event hmem).1 request id)

theorem LogsOut.load {trace : List (FilterEvent ι V)}
    (hlogsOut : LogsOut ⟨run, trace⟩) {now : ℚ} {newId : String}
    (hload : loadOrCreate json request cookie now newId run =
      some (next, events)) : LogsOut ⟨next, trace ++ events⟩ := by
  obtain ⟨session, hstore, -, -, ⟨hstored, -, rfl⟩ | ⟨-, -, rfl⟩⟩ :=
    loadOrCreate_cases hload
  · constructor
    · intro other id hmem
      rw [hstore]
      exact hlogsOut.gone other id (by simpa using hmem)
    · apply hlogsOut.refused.concat
      rintro starting id hevent other hdeleted
      obtain ⟨-, rfl⟩ := FilterEvent.obtained.inj hevent
      exact hlogsOut.gone other _ hdeleted hstored
  · apply hlogsOut.of_quiet
    · simp [FilterEvent.Quiet]
    · exact fun id hmem => .inl (hstore ▸ hmem)

theorem LogsOut.finish_iff {trace : List (FilterEvent ι V)}
    (hlogsOut : LogsOut ⟨run, trace⟩) (htracked : Tracked ⟨run, trace⟩)
    {raised : Bool} (hhandling : run.requests request = .handling session)
    (hfinish : finish json backend request raised session run = (next, events)) :
    LogsOut ⟨next, trace ++ events⟩ ↔
      LeavesEnded json backend run (.finish request raised) := by
  have hallowed : LeavesEnded json backend run (.finish request raised) ↔
      (session.invalidated = false → session.modified = true →
        (backend.entry json session.data run.heap).isSome → ¬ run.Ended session.id) := by
    constructor
    · exact fun hleaves => hleaves request raised session rfl hhandling
    · rintro hleaves other _ found hpick hfound
      obtain ⟨rfl, -⟩ := FilterPick.finish.inj hpick
      rw [hhandling] at hfound
      exact Phase.handling.inj hfound ▸ hleaves
  rw [hallowed]
  obtain ⟨-, -, written, quiet, rfl, hquiet, ⟨hinvalidated, hstore, rfl⟩ |
    ⟨hinvalidated, hmodified, ⟨entry, hentry, hstore⟩, rfl⟩ |
    ⟨hinvalidated, hentry, hstore, rfl⟩⟩ := finish_cases hfinish
  · refine iff_of_true ?_ (by simp [hinvalidated])
    have hdeleted : LogsOut ⟨next, trace ++ [.deleted request session.id]⟩ := by
      constructor
      · intro other id hmem
        rw [hstore, Dict.mem_keys_erase]
        rintro ⟨hkept, hne⟩
        rcases mem_append.mp hmem with hold | hnew
        · exact hlogsOut.gone other id hold hkept
        · simp [hne] at hnew
      · exact hlogsOut.refused.concat fun _ _ => nofun
    rw [← append_assoc]
    exact hdeleted.of_quiet hquiet fun id hmem => .inl hmem
  · have hended := htracked.ended session.id
    simp only [hinvalidated, hmodified, hentry, Option.isSome_some,
      forall_const, hended, not_exists]
    constructor
    · intro hnext other hmem
      apply hnext.gone other session.id (mem_append_left _ hmem)
      rw [hstore, Dict.mem_keys_set]
      exact .inl rfl
    · intro hfree
      apply hlogsOut.of_quiet hquiet
      intro id hmem
      rw [hstore, Dict.mem_keys_set] at hmem
      rcases hmem with rfl | hold
      · exact .inr hfree
      · exact .inl hold
  · refine iff_of_true ?_ ?_
    · exact hlogsOut.of_quiet hquiet fun id hmem => .inl (hstore ▸ hmem)
    · intro _ hmodified hsome
      simp [hentry hmodified] at hsome

theorem leavesEnded_of_disabled (hstep : (filterMachine json backend).step run pick = none) :
    LeavesEnded json backend run pick := by
  rintro request raised session rfl hhandling
  simp [filterMachine, hhandling] at hstep

theorem logsOut_step_iff {execution : Execution (FilterRun ι V) (FilterEvent ι V)}
    (htracked : Tracked execution) (hlogsOut : LogsOut execution)
    (hstep : (filterMachine json backend).step execution.state pick = some (next, events)) :
    LogsOut ⟨next, execution.trace ++ events⟩ ↔
      LeavesEnded json backend execution.state pick := by
  obtain ⟨request, cookie, now, newId, rfl, hwaiting, hload⟩ |
    ⟨request, session, changed, event, hpick, hhandling, hid, hstore,
      hused, hrequests, hevents, hquiet⟩ |
    ⟨request, raised, session, rfl, hhandling, hfinish⟩ |
    ⟨id, rfl, hnext, hevents⟩ := filter_step_cases hstep
  · exact iff_of_true (hlogsOut.load hload) nofun
  · refine iff_of_true ?_ ?_
    · rw [hevents]
      apply hlogsOut.of_quiet
      · simpa using hquiet
      · exact fun id hmem => .inl (hstore ▸ hmem)
    · rintro other raised - rfl
      exact absurd rfl (hpick other raised)
  · exact hlogsOut.finish_iff htracked hhandling hfinish
  · refine iff_of_true ?_ nofun
    rw [hevents]
    apply hlogsOut.of_quiet
    · simp [FilterEvent.Quiet]
    · rw [hnext]
      exact fun id hmem => .inl (Dict.mem_keys_erase.mp hmem).1

theorem logsOut_iff_leavesEnded (json : Json V) (backend : Backend)
    (heap : Heap V) (store : Dict String (Entry V))
    (schedule : List (FilterPick ι V)) :
    (∀ front, front <+: schedule → LogsOut ((filterMachine json backend).run
        (FilterRun.start heap store) front)) ↔
      (filterMachine json backend).Meets (LeavesEnded json backend)
        ⟨FilterRun.start heap store, []⟩ schedule := by
  apply Machine.forall_prefix_iff_meets Tracked LogsOut
  · exact fun _ _ _ _ htracked hstep => htracked.step hstep
  · exact fun _ _ _ _ htracked hlogsOut => logsOut_step_iff htracked hlogsOut
  · exact fun _ _ => leavesEnded_of_disabled
  · exact Tracked.start heap store
  · exact ⟨nofun, AtEach.nil⟩

/-- A request which overlaps with a logout brings the session back. -/
theorem not_logsOut_overlap :
    ¬ ∀ front, front <+: [.load 0 (some "s") 1 "", .load 1 (some "s") 1 "",
        .set 1 "cart" 7, .invalidate 0, .finish 0 false, .finish 1 false] →
      LogsOut ((filterMachine (⟨some, id, fun _ => rfl, fun _ _ _ => rfl⟩ : Json ℚ) .redis).run
        (FilterRun.start ⟨fun _ => .empty, 0⟩
          (Dict.empty.set "s" (.text .empty)) : FilterRun ℕ ℚ) front) := by
  intro hall
  have hgone := (hall _ (prefix_refl _)).gone 0 "s"
  revert hgone
  decide +kernel

end PyFly.Session
