import PyFly.SessionLogout

/-!
# Overlapping updates of one session

Requests on the in-memory store change one dictionary.  Requests on Redis
change copies, and the last copy to be written back replaces the others: what
it does not descend from is lost.
-/

namespace PyFly.Session

open Library List

variable {V ι : Type} [DecidableEq ι]

/-! ## Overlapping requests -/

/-- The names which `HttpSession` does not keep for itself. -/
def IsAttribute (name : String) : Prop :=
  name ≠ createdAt ∧ name ≠ lastAccessed

def Updates (schedule : List (FilterPick ι V)) (request : ι) (name : String) :
    Prop :=
  (∃ value, .set request name value ∈ schedule) ∨
    .remove request name ∈ schedule

structure Overlap (json : Json V) (ι : Type) where
  id : String
  data : Dict String V
  schedule : List (FilterPick ι V)
  id_ne : id ≠ ""
  kept : ∀ name value, data.get? name = some value →
    json.reload value = some value
  cookies : ∀ request cookie now newId,
    .load request cookie now newId ∈ schedule → cookie = some id
  stays : ∀ request, .invalidate request ∉ schedule
  lives : ∀ other, .expire other ∉ schedule
  attributes : ∀ request name, Updates schedule request name →
    IsAttribute name
  apart : ∀ request other name, Updates schedule request name →
    Updates schedule other name → request = other

inductive Stage
  | waiting
  | handling
  | done
  deriving DecidableEq, Repr

def handlerMachine : Machine (ι → Stage) (FilterPick ι V)
    (String × Option V) where
  step stages
    | .load request _ _ _ =>
      if stages request = .waiting then
        some (Function.update stages request .handling, [])
      else none
    | .set request name value =>
      if stages request = .handling then
        some (stages, [(name, some value)])
      else none
    | .remove request name =>
      if stages request = .handling then some (stages, [(name, none)])
      else none
    | .finish request _ =>
      if stages request = .handling then
        some (Function.update stages request .done, [])
      else none
    | .invalidate _ | .expire _ => none

def applyUpdates (updates : List (String × Option V)) (name : String)
    (initial : Option V) : Option V :=
  updates.foldl
    (fun value update => if update.1 = name then update.2 else value) initial

/-- The requests whose saves a copy descends from. -/
structure Lineage (ι : Type) where
  stored : List ι := []
  loaded : ι → List ι := fun _ => []

def lineageStep (lineage : Lineage ι) : FilterEvent ι V → Lineage ι
  | .obtained request _ =>
    { lineage with
      loaded := Function.update lineage.loaded request lineage.stored }
  | .saved request _ =>
    { lineage with stored := request :: lineage.loaded request }
  | _ => lineage

def lineage (history : List (FilterEvent ι V)) : Lineage ι :=
  history.foldl lineageStep {}

namespace Overlap

variable {json : Json V} (overlap : Overlap json ι)

def start : Backend → FilterRun ι V
  | .memory =>
    FilterRun.start ⟨fun _ => overlap.data, 1⟩
      (Dict.empty.set overlap.id (.shared 0))
  | .redis =>
    FilterRun.start ⟨fun _ => .empty, 0⟩
      (Dict.empty.set overlap.id (.text overlap.data))

def execution (backend : Backend) :
    Execution (FilterRun ι V) (FilterEvent ι V) :=
  (filterMachine json backend).run (overlap.start backend) overlap.schedule

def session (backend : Backend) : Option (Dict String V) :=
  ((overlap.execution backend).state.store.get? overlap.id).map fun entry =>
    entry.contents (overlap.execution backend).state.heap

def result (name : String) : Option V :=
  applyUpdates
    (handlerMachine.run (fun _ => .waiting) overlap.schedule).trace name
    (overlap.data.get? name)

structure KeepsUpdates : Prop where
  holds : ∀ backend, ∃ session, overlap.session backend = some session ∧
    ∀ name, IsAttribute name → session.get? name = overlap.result name
  same : ∀ memory redis, overlap.session .memory = some memory →
    overlap.session .redis = some redis →
    ∀ name, IsAttribute name → memory.get? name = redis.get? name

def SavesDescend : Prop :=
  ∀ name, IsAttribute name →
    overlap.result name ≠ overlap.data.get? name →
      (∃ request ∈ (lineage (overlap.execution .redis).trace).stored,
        Updates overlap.schedule request name) ∧
      (overlap.result name).bind json.reload = overlap.result name

end Overlap

/-! ## What a request does -/

variable {name : String}

theorem get?_stamp (json : Json V) (now : ℚ) (data : Dict String V)
    (hname : IsAttribute name) :
    (stamp json now data).get? name = data.get? name := by
  rw [stamp, Dict.get?_set_of_ne hname.2, Dict.get?_setDefault_of_ne hname.1]

structure OnSession (id : String) (run : FilterRun ι V) : Prop where
  stored : ∃ entry, run.store.get? id = some entry
  own : ∀ request session, run.requests request = .handling session →
    session.id = id ∧ session.invalidated = false

inductive Moves (json : Json V) (backend : Backend) (id : String)
    (Owns : ι → String → Prop) (run next : FilterRun ι V) :
    List (FilterEvent ι V) → Prop
  | loads (request : ι) (entry : Entry V) (now : ℚ)
      (hwaiting : run.requests request = .waiting)
      (hstored : run.store.get? id = some entry)
      (hheap : next.heap = (entry.fetch run.heap).2.modify
        (entry.fetch run.heap).1 (stamp json now))
      (hstore : next.store = run.store)
      (hrequests : next.requests = Function.update run.requests request
        (.handling ⟨id, (entry.fetch run.heap).1, false, false, false⟩)) :
      Moves json backend id Owns run next [.obtained request id]
  | updates (request : ι) (session : HttpSession) (name : String)
      (value : Option V) (modified : Bool) (howns : Owns request name)
      (hhandling : run.requests request = .handling session)
      (hnext : next.heap.next = run.heap.next)
      (hheap : ∀ ref other, (next.heap.dicts ref).get? other =
        if ref = session.data ∧ other = name then value
        else (run.heap.dicts ref).get? other)
      (hstore : next.store = run.store)
      (hrequests : next.requests = Function.update run.requests request
        (.handling { session with modified := modified })) :
      Moves json backend id Owns run next [.updated request name value]
  | saves (request : ι) (session : HttpSession) (entry : Entry V)
      (response : List (FilterEvent ι V))
      (hhandling : run.requests request = .handling session)
      (hentry : backend.entry json session.data run.heap = some entry)
      (hheap : next.heap = run.heap)
      (hstore : next.store = run.store.set id entry)
      (hrequests : next.requests = Function.update run.requests request
        (.done session))
      (hresponse : ∀ event ∈ response, ∃ cookie,
        event = .responded request cookie) :
      Moves json backend id Owns run next (.saved request id :: response)
  | leaves (request : ι) (session : HttpSession)
      (events : List (FilterEvent ι V))
      (hhandling : run.requests request = .handling session)
      (hheap : next.heap = run.heap) (hstore : next.store = run.store)
      (hrequests : next.requests = Function.update run.requests request
        (.done session))
      (hevents : ∀ event ∈ events, (∃ cookie,
        event = .responded request cookie) ∨ event = .unsaved request id) :
      Moves json backend id Owns run next events

variable {json : Json V} {backend : Backend} {id : String}
  {Owns : ι → String → Prop} {run next : FilterRun ι V} {request : ι}
  {session : HttpSession}

theorem moves_set (hhandling : run.requests request = .handling session)
    (howns : Owns request name) (value : V) :
    Moves json backend id Owns run
      (act request (HttpSession.setAttribute name value) session run)
      [.updated request name (some value)] := by
  exact .updates request session name (some value) true howns hhandling rfl
    (session.get?_setAttribute name run.heap value) rfl rfl

theorem moves_remove (hhandling : run.requests request = .handling session)
    (howns : Owns request name) :
    Moves json backend id Owns run
      (act request (HttpSession.removeAttribute name) session run)
      [.updated request name none] := by
  obtain ⟨modified, hsession, hnext⟩ :=
    session.removeAttribute_eq name run.heap
  refine .updates request session name none modified howns hhandling hnext
    (session.get?_removeAttribute name run.heap) rfl ?_
  rw [← hsession]
  rfl

variable {events : List (FilterEvent ι V)}

theorem moves_finish {raised : Bool} (hon : OnSession id run)
    (hhandling : run.requests request = .handling session)
    (hfinish : finish json backend request raised session run =
      (next, events)) :
    Moves json backend id Owns run next events := by
  obtain ⟨hid, hstays⟩ := hon.own request session hhandling
  obtain ⟨hinvalidated, -⟩ | ⟨-, -, entry, hentry, hpersist⟩ |
    ⟨-, -, -, hpersist⟩ | ⟨-, -, hpersist⟩ :=
      persist_cases json backend request session run
  · rw [hstays] at hinvalidated
    cases hinvalidated
  · obtain ⟨response, hresponse, heq⟩ := finish_of_persist raised hpersist
    obtain ⟨rfl, rfl⟩ := Prod.mk.inj (hfinish.symm.trans heq)
    rw [hid]
    exact .saves request session entry response hhandling hentry rfl
      rfl rfl hresponse
  · obtain ⟨response, hresponse, heq⟩ := finish_of_persist raised hpersist
    obtain ⟨rfl, rfl⟩ := Prod.mk.inj (hfinish.symm.trans heq)
    refine .leaves request session _ hhandling rfl rfl rfl ?_
    rw [hid]
    exact forall_mem_cons.mpr
      ⟨.inr rfl, fun event hmem => .inl (hresponse event hmem)⟩
  · obtain ⟨response, hresponse, heq⟩ := finish_of_persist raised hpersist
    obtain ⟨rfl, rfl⟩ := Prod.mk.inj (hfinish.symm.trans heq)
    exact .leaves request session _ hhandling rfl rfl rfl
      fun event hmem => .inl (hresponse event hmem)

theorem moves_load {now : ℚ} {newId : String} (hid : id ≠ "")
    (hon : OnSession id run) (hwaiting : run.requests request = .waiting)
    (hload : loadOrCreate json request (some id) now newId run =
      some (next, events)) :
    Moves json backend id Owns run next events := by
  obtain ⟨entry, hentry⟩ := hon.stored
  have hstored : stored (some id) run.store = some (id, entry) := by
    simp [stored, hid, hentry]
  rw [loadOrCreate, hstored] at hload
  obtain ⟨rfl, rfl⟩ := Prod.mk.inj (Option.some.inj hload)
  exact .loads request entry now hwaiting hentry rfl rfl rfl

theorem moves_of_step (overlap : Overlap json ι) {pick : FilterPick ι V}
    (hon : OnSession overlap.id run) (hpick : pick ∈ overlap.schedule)
    (hstep : (filterMachine json backend).step run pick =
      some (next, events)) :
    Moves json backend overlap.id (Updates overlap.schedule) run next
      events := by
  cases pick with
  | load request cookie now newId =>
    simp only [filterMachine] at hstep
    split at hstep
    · next hwaiting =>
      rw [overlap.cookies request cookie now newId hpick] at hstep
      exact moves_load overlap.id_ne hon hwaiting hstep
    · simp at hstep
  | set request name value =>
    simp only [filterMachine] at hstep
    split at hstep
    · next session hhandling =>
      obtain ⟨rfl, rfl⟩ := Prod.mk.inj (Option.some.inj hstep)
      exact moves_set hhandling (.inl ⟨value, hpick⟩) value
    · simp at hstep
  | remove request name =>
    simp only [filterMachine] at hstep
    split at hstep
    · next session hhandling =>
      obtain ⟨rfl, rfl⟩ := Prod.mk.inj (Option.some.inj hstep)
      exact moves_remove hhandling (.inr hpick)
    · simp at hstep
  | invalidate request => exact absurd hpick (overlap.stays request)
  | finish request raised =>
    simp only [filterMachine] at hstep
    split at hstep
    · next session hhandling =>
      exact moves_finish hon hhandling (Option.some.inj hstep)
    · simp at hstep
  | expire id => exact absurd hpick (overlap.lives id)

/-! ## The handlers under a store -/

def updates (history : List (FilterEvent ι V)) : List (String × Option V) :=
  history.filterMap fun event =>
    match event with
    | .updated _ name value => some (name, value)
    | _ => none

def Phase.stage : Phase → Stage
  | .waiting => .waiting
  | .handling _ => .handling
  | .done _ => .done

theorem OnSession.moves (hon : OnSession id run)
    (hmoves : Moves json backend id Owns run next events) :
    OnSession id next := by
  have hkeep : ∀ {request : ι} {phase : Phase},
      next.requests = Function.update run.requests request phase →
      (∀ session, phase = .handling session →
        session.id = id ∧ session.invalidated = false) →
      ∀ other session, next.requests other = .handling session →
        session.id = id ∧ session.invalidated = false := by
    intro request phase hrequests hphase other session hother
    rw [hrequests] at hother
    by_cases hsame : other = request
    · rw [hsame, Function.update_self] at hother
      exact hphase session hother
    · rw [Function.update_of_ne hsame] at hother
      exact hon.own other session hother
  cases hmoves with
  | loads request entry now hwaiting hstored hheap hstore hrequests =>
    refine ⟨hstore ▸ hon.stored, hkeep hrequests ?_⟩
    intro session hphase
    rw [← Phase.handling.inj hphase]
    exact ⟨rfl, rfl⟩
  | updates request session name value modified howns hhandling hnext hheap
      hstore hrequests =>
      refine ⟨hstore ▸ hon.stored, hkeep hrequests ?_⟩
      intro changed hphase
      rw [← Phase.handling.inj hphase]
      exact hon.own request session hhandling
  | saves request session entry response hhandling hentry hheap hstore
      hrequests hresponse =>
      refine ⟨⟨entry, by rw [hstore, Dict.get?_set_self]⟩, ?_⟩
      exact hkeep hrequests fun _ => nofun
  | leaves request session events hhandling hheap hstore hrequests hevents =>
    exact ⟨hstore ▸ hon.stored, hkeep hrequests fun _ => nofun⟩

omit [DecidableEq ι] in
theorem updates_append (first second : List (FilterEvent ι V)) :
    updates (first ++ second) = updates first ++ updates second :=
  filterMap_append

omit [DecidableEq ι] in
theorem updates_eq_nil (hevents : ∀ event ∈ events, ∀ request name value,
      event ≠ .updated request name value) : updates events = [] := by
  rw [updates, filterMap_eq_nil_iff]
  intro event hmem
  cases event with
  | updated request name value =>
    exact absurd rfl (hevents _ hmem request name value)
  | _ => rfl

structure Follows (id : String) (run : FilterRun ι V) (stages : ι → Stage) :
    Prop where
  on : OnSession id run
  stage : ∀ request, (run.requests request).stage = stages request

variable {stages : ι → Stage}

theorem stage_update {phase : Phase} {stage : Stage}
    (hstage : ∀ request, (run.requests request).stage = stages request)
    (hrequests : next.requests = Function.update run.requests request phase)
    (hphase : phase.stage = stage) (other : ι) :
    (next.requests other).stage = Function.update stages request stage other := by
  rw [hrequests]
  by_cases hsame : other = request
  · rw [hsame, Function.update_self, Function.update_self, hphase]
  · rw [Function.update_of_ne hsame, Function.update_of_ne hsame]
    exact hstage other

theorem stage_same {phase : Phase}
    (hstage : ∀ request, (run.requests request).stage = stages request)
    (hrequests : next.requests = Function.update run.requests request phase)
    (hphase : phase.stage = stages request) (other : ι) :
    (next.requests other).stage = stages other := by
  rw [stage_update hstage hrequests hphase, Function.update_eq_self]

omit [DecidableEq ι] in
theorem updates_persist (json : Json V) (backend : Backend) (request : ι)
    (session : HttpSession) (run : FilterRun ι V) :
    updates (persist json backend request session run).2.1 = [] := by
  obtain ⟨-, hpersist⟩ | ⟨-, -, entry, -, hpersist⟩ |
    ⟨-, -, -, hpersist⟩ | ⟨-, -, hpersist⟩ :=
      persist_cases json backend request session run
  all_goals
    rw [hpersist]
    rfl

theorem finish_silent (json : Json V) (backend : Backend) (request : ι)
    (raised : Bool) (session : HttpSession) (run : FilterRun ι V) :
    (finish json backend request raised session run).1.requests =
        Function.update run.requests request (.done session) ∧
      updates (finish json backend request raised session run).2 = [] := by
  have hsilent := updates_persist json backend request session run
  rcases hpersist : persist json backend request session run with
    ⟨store, events, failed⟩
  rw [hpersist] at hsilent
  obtain ⟨response, hresponse, hfinish⟩ := finish_of_persist raised hpersist
  rw [hfinish]
  refine ⟨rfl, ?_⟩
  rw [updates_append, hsilent, nil_append]
  apply updates_eq_nil
  intro event hmem other name value
  obtain ⟨cookie, rfl⟩ := hresponse event hmem
  exact nofun

theorem lockstep (overlap : Overlap json ι) {pick : FilterPick ι V}
    (hfollows : Follows overlap.id run stages) (hpick : pick ∈ overlap.schedule) :
    Machine.Alike (Follows overlap.id) updates (fun made => made)
      ((filterMachine json backend).step run pick)
      (handlerMachine.step stages pick) := by
  have hon : ∀ {next events},
      (filterMachine json backend).step run pick = some (next, events) →
        OnSession overlap.id next := by
    intro next events hstep
    exact hfollows.on.moves (moves_of_step overlap hfollows.on hpick hstep)
  cases pick with
  | load request cookie now newId =>
    have hstage := hfollows.stage request
    cases hphase : run.requests request with
    | waiting =>
      obtain ⟨entry, hentry⟩ := hfollows.on.stored
      have hstored : stored cookie run.store = some (overlap.id, entry) := by
        rw [overlap.cookies request cookie now newId hpick]
        simp [stored, overlap.id_ne, hentry]
      rw [hphase] at hstage
      simp only [filterMachine, hphase, loadOrCreate, hstored] at hon
      simp only [filterMachine, handlerMachine, hphase, loadOrCreate,
        hstored, ← hstage, Phase.stage, if_true, Machine.Alike]
      exact ⟨⟨hon rfl, stage_update hfollows.stage rfl rfl⟩, rfl⟩
    | handling session =>
      rw [hphase] at hstage
      simp [filterMachine, handlerMachine, hphase, ← hstage, Phase.stage,
        Machine.Alike]
    | done session =>
      rw [hphase] at hstage
      simp [filterMachine, handlerMachine, hphase, ← hstage, Phase.stage,
        Machine.Alike]
  | set request name value =>
    have hstage := hfollows.stage request
    cases hphase : run.requests request with
    | handling session =>
      rw [hphase] at hstage
      simp only [filterMachine, hphase] at hon
      simp only [filterMachine, handlerMachine, hphase, ← hstage,
        Phase.stage, if_true, Machine.Alike]
      exact ⟨⟨hon rfl, stage_same hfollows.stage rfl hstage⟩, rfl⟩
    | waiting =>
      rw [hphase] at hstage
      simp [filterMachine, handlerMachine, hphase, ← hstage, Phase.stage,
        Machine.Alike]
    | done session =>
      rw [hphase] at hstage
      simp [filterMachine, handlerMachine, hphase, ← hstage, Phase.stage,
        Machine.Alike]
  | remove request name =>
    have hstage := hfollows.stage request
    cases hphase : run.requests request with
    | handling session =>
      rw [hphase] at hstage
      simp only [filterMachine, hphase] at hon
      simp only [filterMachine, handlerMachine, hphase, ← hstage,
        Phase.stage, if_true, Machine.Alike]
      exact ⟨⟨hon rfl, stage_same hfollows.stage rfl hstage⟩, rfl⟩
    | waiting =>
      rw [hphase] at hstage
      simp [filterMachine, handlerMachine, hphase, ← hstage, Phase.stage,
        Machine.Alike]
    | done session =>
      rw [hphase] at hstage
      simp [filterMachine, handlerMachine, hphase, ← hstage, Phase.stage,
        Machine.Alike]
  | invalidate request => exact absurd hpick (overlap.stays request)
  | finish request raised =>
    have hstage := hfollows.stage request
    cases hphase : run.requests request with
    | handling session =>
      obtain ⟨hrequests, hsilent⟩ :=
        finish_silent json backend request raised session run
      rw [hphase] at hstage
      simp only [filterMachine, hphase] at hon
      simp only [filterMachine, handlerMachine, hphase, ← hstage,
        Phase.stage, if_true, Machine.Alike]
      exact ⟨⟨hon rfl, stage_update hfollows.stage hrequests rfl⟩, hsilent⟩
    | waiting =>
      rw [hphase] at hstage
      simp [filterMachine, handlerMachine, hphase, ← hstage, Phase.stage,
        Machine.Alike]
    | done session =>
      rw [hphase] at hstage
      simp [filterMachine, handlerMachine, hphase, ← hstage, Phase.stage,
        Machine.Alike]
  | expire id => exact absurd hpick (overlap.lives id)

omit [DecidableEq ι] in
theorem Overlap.follows_start (overlap : Overlap json ι) (backend : Backend) :
    Follows overlap.id (overlap.start backend) fun _ => .waiting := by
  cases backend with
  | memory =>
    refine ⟨⟨⟨.shared 0, Dict.get?_set_self _ _ _⟩, ?_⟩, fun _ => rfl⟩
    exact fun _ _ => nofun
  | redis =>
    refine ⟨⟨⟨.text overlap.data, Dict.get?_set_self _ _ _⟩, ?_⟩,
      fun _ => rfl⟩
    exact fun _ _ => nofun

theorem Overlap.updates_execution (overlap : Overlap json ι)
    (backend : Backend) :
    updates (overlap.execution backend).trace =
      (handlerMachine.run (fun _ => .waiting) overlap.schedule).trace :=
  (Machine.runFrom_lockstep (Follows overlap.id) updates
    (fun made => made) (fun pick => pick ∈ overlap.schedule) updates_append (fun _ _ => rfl)
    (fun _ _ _ hfollows hpick => lockstep overlap hfollows hpick)
    (overlap.follows_start backend) rfl fun _ hmem => hmem).2

end PyFly.Session
