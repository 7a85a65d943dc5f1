import PyFly.SessionUpdates

/-!
# What the stores make of overlapping updates

On the in-memory store every request changes the stored dictionary.  On Redis
a copy shows the updates of the requests whose saves it descends from, and of
the request which works on it.
-/

namespace PyFly.Session

open Library List

variable {V ι : Type} [DecidableEq ι] {json : Json V}
  {overlap : Overlap json ι} {run next : FilterRun ι V}
  {trace events : List (FilterEvent ι V)}

def Overlap.valueAt (overlap : Overlap json ι)
    (trace : List (FilterEvent ι V)) (name : String) : Option V :=
  applyUpdates (updates trace) name (overlap.data.get? name)

omit [DecidableEq ι] in
variable (overlap) in
theorem valueAt_append_silent (hsilent : updates events = []) (name : String) :
    overlap.valueAt (trace ++ events) name = overlap.valueAt trace name := by
  rw [Overlap.valueAt, updates_append, hsilent, append_nil, Overlap.valueAt]

omit [DecidableEq ι] in
theorem valueAt_updated (request : ι) (name : String) (value : Option V) (other : String) :
    overlap.valueAt (trace ++ [.updated request name value]) other =
      if other = name then value else overlap.valueAt trace other := by
  rw [Overlap.valueAt, updates_append, applyUpdates, foldl_append]
  by_cases hname : other = name
  · simp [updates, hname]
  · simp [updates, hname, Ne.symm hname, Overlap.valueAt, applyUpdates]

variable {request : ι}

omit [DecidableEq ι] in
theorem updates_saved {id : String} (hresponse : ∀ event ∈ events, ∃ cookie,
      event = .responded request cookie) :
    updates (.saved request id :: events) = [] := by
  apply updates_eq_nil
  intro event hmem other name value
  rcases mem_cons.mp hmem with rfl | hrest
  · exact nofun
  · obtain ⟨cookie, rfl⟩ := hresponse event hrest
    exact nofun

omit [DecidableEq ι] in
theorem updates_left {id : String} (hevents : ∀ event ∈ events, (∃ cookie,
      event = .responded request cookie) ∨ event = .unsaved request id) :
    updates events = [] := by
  apply updates_eq_nil
  intro event hmem other name value
  obtain ⟨cookie, rfl⟩ | rfl := hevents event hmem <;> exact nofun

/-! ## The in-memory store -/

structure Shares (overlap : Overlap json ι) (run : FilterRun ι V)
    (trace : List (FilterEvent ι V)) : Prop where
  on : OnSession overlap.id run
  stored : run.store.get? overlap.id = some (.shared 0)
  data : ∀ request session, run.requests request = .handling session → session.data = 0
  contents : ∀ name, IsAttribute name →
    (run.heap.dicts 0).get? name = overlap.valueAt trace name

variable {other : ι} {phase : Phase}

theorem handling_cases {session : HttpSession}
    (hrequests : next.requests = Function.update run.requests request phase)
    (hother : next.requests other = .handling session) :
    other = request ∧ phase = .handling session ∨
      other ≠ request ∧ run.requests other = .handling session := by
  rw [hrequests] at hother
  by_cases hsame : other = request
  · rw [hsame, Function.update_self] at hother
    exact .inl ⟨hsame, hother⟩
  · rw [Function.update_of_ne hsame] at hother
    exact .inr ⟨hsame, hother⟩

theorem Shares.moves (hshares : Shares overlap run trace)
    (hmoves : Moves json .memory overlap.id (Updates overlap.schedule) run next events) :
    Shares overlap next (trace ++ events) := by
  have hon := hshares.on.moves hmoves
  cases hmoves with
  | loads request entry now hwaiting hstored hheap hstore hrequests =>
    rw [hshares.stored] at hstored
    obtain rfl := Option.some.inj hstored
    refine ⟨hon, hstore ▸ hshares.stored, ?_, ?_⟩
    · intro other session hother
      obtain ⟨-, hphase⟩ | ⟨-, hbefore⟩ := handling_cases hrequests hother
      · rw [← Phase.handling.inj hphase]
        rfl
      · exact hshares.data other session hbefore
    · intro name hname
      rw [hheap, valueAt_append_silent overlap rfl, ← hshares.contents name hname]
      simp [Heap.modify, Entry.fetch, get?_stamp json now _ hname]
  | updates request session name value modified howns hhandling hnext hheap hstore hrequests =>
      refine ⟨hon, hstore ▸ hshares.stored, ?_, ?_⟩
      · intro other changed hother
        obtain ⟨-, hphase⟩ | ⟨-, hbefore⟩ := handling_cases hrequests hother
        · rw [← Phase.handling.inj hphase]
          exact hshares.data request session hhandling
        · exact hshares.data other changed hbefore
      · intro other hother
        rw [hheap, hshares.data request session hhandling, valueAt_updated,
          hshares.contents other hother]
        simp
  | saves request session entry response hhandling hentry hheap hstore hrequests hresponse =>
      obtain rfl := Option.some.inj hentry
      refine ⟨hon, ?_, ?_, ?_⟩
      · rw [hstore, Dict.get?_set_self, hshares.data request session hhandling]
      · intro other found hother
        obtain ⟨-, hphase⟩ | ⟨-, hbefore⟩ := handling_cases hrequests hother
        · cases hphase
        · exact hshares.data other found hbefore
      · intro name hname
        rw [hheap, hshares.contents name hname,
          valueAt_append_silent overlap (updates_saved hresponse)]
  | leaves request session events hhandling hheap hstore hrequests hevents =>
    refine ⟨hon, hstore ▸ hshares.stored, ?_, ?_⟩
    · intro other found hother
      obtain ⟨-, hphase⟩ | ⟨-, hbefore⟩ := handling_cases hrequests hother
      · cases hphase
      · exact hshares.data other found hbefore
    · intro name hname
      rw [hheap, hshares.contents name hname,
        valueAt_append_silent overlap (updates_left hevents)]

theorem shares_execution (overlap : Overlap json ι) :
    Shares overlap (overlap.execution .memory).state (overlap.execution .memory).trace := by
  apply Machine.runFrom_invariant_of_allowed (Shares overlap)
    fun pick => pick ∈ overlap.schedule
  · intro state trace pick next events hshares hpick hstep
    exact hshares.moves (moves_of_step overlap hshares.on hpick hstep)
  · refine ⟨(overlap.follows_start .memory).on, Dict.get?_set_self _ _ _, ?_, fun _ _ => rfl⟩
    exact fun _ _ => nofun
  · exact fun _ hmem => hmem

theorem holds_memory (overlap : Overlap json ι) :
    ∃ session, overlap.session .memory = some session ∧
      ∀ name, IsAttribute name → session.get? name = overlap.result name := by
  have hshares := shares_execution overlap
  refine ⟨_, by rw [Overlap.session, hshares.stored, Option.map_some], ?_⟩
  intro name hname
  refine (hshares.contents name hname).trans ?_
  rw [Overlap.valueAt, overlap.updates_execution, Overlap.result]

/-! ## Redis -/

structure Shows (overlap : Overlap json ι) (trace : List (FilterEvent ι V))
    (included : List ι) (name : String) (value : Option V) : Prop where
  owned : ∀ request ∈ included, Updates overlap.schedule request name →
    value = (overlap.valueAt trace name).bind json.reload
  initial : (∀ request ∈ included, ¬ Updates overlap.schedule request name) →
    value = overlap.data.get? name

structure Copies (overlap : Overlap json ι) (run : FilterRun ι V)
    (trace : List (FilterEvent ι V)) : Prop where
  on : OnSession overlap.id run
  text : ∃ contents, run.store.get? overlap.id = some (.text contents) ∧
    ∀ name, IsAttribute name → Shows overlap trace (lineage trace).stored name
      (contents.get? name)
  bounded : ∀ request session, run.requests request = .handling session →
    session.data < run.heap.next
  own : ∀ request session, run.requests request = .handling session →
    ∀ name, Updates overlap.schedule request name →
      (run.heap.dicts session.data).get? name = overlap.valueAt trace name
  loaded : ∀ request session, run.requests request = .handling session →
    ∀ name, IsAttribute name → ¬ Updates overlap.schedule request name →
      Shows overlap trace ((lineage trace).loaded request) name
        ((run.heap.dicts session.data).get? name)
  apart : ∀ request session, run.requests request = .handling session →
    ∀ other session', run.requests other = .handling session' →
      session.data = session'.data → request = other
  untouched : ∀ request, run.requests request = .waiting →
    ∀ name, Updates overlap.schedule request name →
      overlap.valueAt trace name = overlap.data.get? name
  saved : ∀ request ∈ (lineage trace).stored, ∃ session, run.requests request = .done session
  past : ∀ request session, run.requests request = .handling session →
    ∀ other ∈ (lineage trace).loaded request, ∃ session, run.requests other = .done session

omit [DecidableEq ι] in
theorem reload_bind_reload (json : Json V) (value : Option V) :
    (value.bind json.reload).bind json.reload = value.bind json.reload := by
  cases value with
  | none => rfl
  | some value =>
    cases hkept : json.reload value with
    | none => simp [hkept]
    | some kept => simp [hkept, json.reload_reload value kept hkept]

omit [DecidableEq ι] in
theorem get?_reloadData {data kept : Dict String V}
    (hkept : json.reloadData data = some kept) (name : String) :
    kept.get? name = (data.get? name).bind json.reload := by
  unfold Json.reloadData at hkept
  split at hkept
  · rw [← Option.some.inj hkept, Dict.get?_filterMapValues]
  · cases hkept

omit [DecidableEq ι] in
theorem Overlap.data_bind_reload (overlap : Overlap json ι) (name : String) :
    (overlap.data.get? name).bind json.reload = overlap.data.get? name := by
  cases hvalue : overlap.data.get? name with
  | none => rfl
  | some value => exact overlap.kept name value hvalue

omit [DecidableEq ι] in
theorem Shows.congr {trace' : List (FilterEvent ι V)} {included : List ι}
    {name : String} {value : Option V}
    (hshows : Shows overlap trace included name value)
    (hvalue : ∀ request ∈ included, Updates overlap.schedule request name →
      overlap.valueAt trace' name = overlap.valueAt trace name) :
    Shows overlap trace' included name value := by
  refine ⟨fun request hmem howns => ?_, hshows.initial⟩
  rw [hvalue request hmem howns]
  exact hshows.owned request hmem howns

theorem lineage_append : lineage (trace ++ events) = events.foldl lineageStep (lineage trace) :=
  foldl_append

theorem lineage_silent (lineage : Lineage ι)
    (hevents : ∀ event ∈ events, lineageStep lineage event = lineage) :
    events.foldl lineageStep lineage = lineage := by
  induction events with
  | nil => rfl
  | cons event rest ih =>
    rw [foldl_cons, hevents event mem_cons_self]
    exact ih fun other hmem => hevents other (mem_cons_of_mem _ hmem)

theorem done_update (hbefore : ∀ session, run.requests request ≠ .done session)
    (hrequests : next.requests = Function.update run.requests request phase)
    (hdone : ∃ session, run.requests other = .done session) :
    ∃ session, next.requests other = .done session := by
  obtain ⟨session, hsession⟩ := hdone
  refine ⟨session, ?_⟩
  have hother : other ≠ request := by
    rintro rfl
    exact hbefore session hsession
  rw [hrequests, Function.update_of_ne hother, hsession]

theorem waiting_update (hphase : phase ≠ .waiting)
    (hrequests : next.requests = Function.update run.requests request phase)
    (hwaiting : next.requests other = .waiting) :
    run.requests other = .waiting := by
  rw [hrequests] at hwaiting
  by_cases hsame : other = request
  · rw [hsame, Function.update_self] at hwaiting
    exact absurd hwaiting hphase
  · rwa [Function.update_of_ne hsame] at hwaiting

namespace Copies

variable {request : ι}

theorem apart_update (hcopies : Copies overlap run trace) {phase : Phase}
    (hrequests : next.requests = Function.update run.requests request phase)
    (hphase : ∀ session, phase = .handling session → ∀ other session', other ≠ request →
        run.requests other = .handling session' → session.data ≠ session'.data) :
    ∀ first session, next.requests first = .handling session →
      ∀ second session', next.requests second = .handling session' →
        session.data = session'.data → first = second := by
  intro first session hfirst second session' hsecond hdata
  rw [hrequests] at hfirst hsecond
  by_cases hone : first = request
  · by_cases htwo : second = request
    · rw [hone, htwo]
    · rw [hone, Function.update_self] at hfirst
      rw [Function.update_of_ne htwo] at hsecond
      exact absurd hdata (hphase session hfirst second session' htwo hsecond)
  · by_cases htwo : second = request
    · rw [htwo, Function.update_self] at hsecond
      rw [Function.update_of_ne hone] at hfirst
      exact absurd hdata.symm (hphase session' hsecond first session hone hfirst)
    · rw [Function.update_of_ne hone] at hfirst
      rw [Function.update_of_ne htwo] at hsecond
      exact hcopies.apart first session hfirst second session' hsecond hdata

theorem loads (hcopies : Copies overlap run trace) {entry : Entry V} {now : ℚ}
    (hon : OnSession overlap.id next)
    (hwaiting : run.requests request = .waiting)
    (hstored : run.store.get? overlap.id = some entry)
    (hheap : next.heap = (entry.fetch run.heap).2.modify
      (entry.fetch run.heap).1 (stamp json now))
    (hstore : next.store = run.store)
    (hrequests : next.requests = Function.update run.requests request
      (.handling ⟨overlap.id, (entry.fetch run.heap).1, false, false, false⟩)) :
    Copies overlap next (trace ++ [.obtained request overlap.id]) := by
  obtain ⟨contents, htext, hcontents⟩ := hcopies.text
  obtain rfl := Option.some.inj (hstored.symm.trans htext)
  have hsaved : (lineage (trace ++ [.obtained request overlap.id])).stored =
      (lineage trace).stored := by
    rw [lineage_append]
    rfl
  have hloaded : (lineage (trace ++ [.obtained request overlap.id])).loaded =
      Function.update (lineage trace).loaded request (lineage trace).stored := by
    rw [lineage_append]
    rfl
  have hvalue : ∀ name, overlap.valueAt (trace ++ [.obtained request overlap.id]) name =
        overlap.valueAt trace name := valueAt_append_silent overlap rfl
  have hnew : next.heap.dicts run.heap.next = stamp json now contents := by
    simp [hheap, Entry.fetch, Heap.alloc, Heap.modify]
  have hold : ∀ ref, ref < run.heap.next → next.heap.dicts ref = run.heap.dicts ref := by
    intro ref href
    simp [hheap, Entry.fetch, Heap.alloc, Heap.modify, href.ne]
  have hnext : next.heap.next = run.heap.next + 1 := by
    simp [hheap, Entry.fetch, Heap.alloc, Heap.modify]
  have hbefore : ∀ session, run.requests request ≠ .done session := by
    simp [hwaiting]
  have hfree : ∀ name, Updates overlap.schedule request name →
      ∀ other ∈ (lineage trace).stored, ¬ Updates overlap.schedule other name := by
    intro name howns other hmem hother
    obtain ⟨session, hdone⟩ := hcopies.saved other hmem
    rw [overlap.apart other request name hother howns] at hdone
    exact hbefore session hdone
  constructor
  · exact hon
  · refine ⟨contents, by rw [hstore, htext], fun name hname => ?_⟩
    rw [hsaved]
    exact (hcontents name hname).congr fun _ _ _ => hvalue name
  · intro other session hother
    rw [hnext]
    obtain ⟨-, hphase⟩ | ⟨-, hkept⟩ := handling_cases hrequests hother
    · rw [← Phase.handling.inj hphase]
      exact Nat.lt_succ_self _
    · exact (hcopies.bounded other session hkept).trans (Nat.lt_succ_self _)
  · intro other session hother name howns
    rw [hvalue]
    obtain ⟨rfl, hphase⟩ | ⟨-, hkept⟩ := handling_cases hrequests hother
    · have hname := overlap.attributes other name howns
      have hinitial := (hcontents name hname).initial (hfree name howns)
      have hdict : next.heap.dicts session.data = stamp json now contents := by
        rw [← Phase.handling.inj hphase]
        exact hnew
      rw [hdict, get?_stamp json now contents hname, hinitial,
        hcopies.untouched other hwaiting name howns]
    · rw [hold _ (hcopies.bounded other session hkept)]
      exact hcopies.own other session hkept name howns
  · intro other session hother name hname howns
    rw [hloaded]
    obtain ⟨rfl, hphase⟩ | ⟨hne, hkept⟩ := handling_cases hrequests hother
    · have hdict : next.heap.dicts session.data = stamp json now contents := by
        rw [← Phase.handling.inj hphase]
        exact hnew
      rw [hdict, get?_stamp json now contents hname, Function.update_self]
      exact (hcontents name hname).congr fun _ _ _ => hvalue name
    · rw [hold _ (hcopies.bounded other session hkept), Function.update_of_ne hne]
      exact (hcopies.loaded other session hkept name hname howns).congr fun _ _ _ => hvalue name
  · apply hcopies.apart_update hrequests
    intro session hphase other session' _ hother
    rw [← Phase.handling.inj hphase]
    exact (hcopies.bounded other session' hother).ne'
  · intro other hother name howns
    rw [hvalue]
    exact hcopies.untouched other (waiting_update (by simp) hrequests hother) name howns
  · rw [hsaved]
    exact fun other hmem => done_update hbefore hrequests (hcopies.saved other hmem)
  · intro other session hother past hmem
    rw [hloaded] at hmem
    obtain ⟨rfl, -⟩ | ⟨hne, hkept⟩ := handling_cases hrequests hother
    · rw [Function.update_self] at hmem
      exact done_update hbefore hrequests (hcopies.saved past hmem)
    · rw [Function.update_of_ne hne] at hmem
      exact done_update hbefore hrequests (hcopies.past other session hkept past hmem)

variable {session : HttpSession}

theorem updates (hcopies : Copies overlap run trace) {name : String}
    {value : Option V} {modified : Bool} (hon : OnSession overlap.id next)
    (howns : Updates overlap.schedule request name)
    (hhandling : run.requests request = .handling session)
    (hnext : next.heap.next = run.heap.next)
    (hheap : ∀ ref other, (next.heap.dicts ref).get? other =
      if ref = session.data ∧ other = name then value
      else (run.heap.dicts ref).get? other) (hstore : next.store = run.store)
    (hrequests : next.requests = Function.update run.requests request
      (.handling { session with modified := modified })) :
    Copies overlap next (trace ++ [.updated request name value]) := by
  have hlineage : lineage (trace ++ [.updated request name value]) =
      lineage trace := lineage_append
  have hbefore : ∀ session, run.requests request ≠ .done session := by
    simp [hhandling]
  -- no request which is done owns the attribute
  have hdone : ∀ {other : ι}, (∃ session, run.requests other = .done session) →
      ∀ shown, Updates overlap.schedule other shown →
        overlap.valueAt (trace ++ [.updated request name value]) shown =
          overlap.valueAt trace shown := by
    rintro other ⟨found, hfound⟩ shown hshown
    rw [valueAt_updated, if_neg]
    rintro rfl
    rw [overlap.apart other request shown hshown howns] at hfound
    exact hbefore found hfound
  obtain ⟨contents, htext, hcontents⟩ := hcopies.text
  constructor
  · exact hon
  · refine ⟨contents, by rw [hstore, htext], fun shown hshown => ?_⟩
    rw [hlineage]
    exact (hcontents shown hshown).congr fun other hmem =>
      hdone (hcopies.saved other hmem) shown
  · intro other found hother
    rw [hnext]
    obtain ⟨-, hphase⟩ | ⟨-, hkept⟩ := handling_cases hrequests hother
    · rw [← Phase.handling.inj hphase]
      exact hcopies.bounded request session hhandling
    · exact hcopies.bounded other found hkept
  · intro other found hother shown hshown
    rw [hheap, valueAt_updated]
    obtain ⟨rfl, hphase⟩ | ⟨hne, hkept⟩ := handling_cases hrequests hother
    · rw [← Phase.handling.inj hphase, hcopies.own other session hhandling shown hshown]
      simp
    · have hother : shown ≠ name := by
        rintro rfl
        exact hne (overlap.apart other request shown hshown howns)
      simp [hother, hcopies.own other found hkept shown hshown]
  · intro other found hother shown hshown hforeign
    rw [hheap, hlineage]
    obtain ⟨rfl, hphase⟩ | ⟨hne, hkept⟩ := handling_cases hrequests hother
    · have hother : shown ≠ name := by
        rintro rfl
        exact hforeign howns
      rw [← Phase.handling.inj hphase, if_neg (by simp [hother])]
      exact (hcopies.loaded other session hhandling shown hshown
        hforeign).congr fun past hmem =>
          hdone (hcopies.past other session hhandling past hmem) shown
    · have hdata : found.data ≠ session.data := fun hsame =>
        hne (hcopies.apart other found hkept request session hhandling hsame)
      rw [if_neg (by simp [hdata])]
      exact (hcopies.loaded other found hkept shown hshown hforeign).congr
        fun past hmem => hdone (hcopies.past other found hkept past hmem) shown
  · apply hcopies.apart_update hrequests
    intro found hphase other session' hne hother
    rw [← Phase.handling.inj hphase]
    exact fun hsame => hne (hcopies.apart request session hhandling other
      session' hother hsame).symm
  · intro other hother shown hshown
    have hwaiting := waiting_update (by simp) hrequests hother
    rw [valueAt_updated, if_neg]
    · exact hcopies.untouched other hwaiting shown hshown
    · rintro rfl
      rw [overlap.apart other request shown hshown howns, hhandling] at hwaiting
      cases hwaiting
  · rw [hlineage]
    exact fun other hmem => done_update hbefore hrequests (hcopies.saved other hmem)
  · intro other found hother past hmem
    rw [hlineage] at hmem
    obtain ⟨rfl, -⟩ | ⟨-, hkept⟩ := handling_cases hrequests hother
    · exact done_update hbefore hrequests (hcopies.past other session hhandling past hmem)
    · exact done_update hbefore hrequests (hcopies.past other found hkept past hmem)

theorem shows_saved (hcopies : Copies overlap run trace)
    (hhandling : run.requests request = .handling session) {name : String}
    (hname : IsAttribute name) :
    Shows overlap trace (request :: (lineage trace).loaded request) name
      (((run.heap.dicts session.data).get? name).bind json.reload) := by
  constructor
  · intro other hmem howns
    by_cases hforeign : Updates overlap.schedule request name
    · rw [hcopies.own request session hhandling name hforeign]
    · rcases mem_cons.mp hmem with rfl | hpast
      · exact absurd howns hforeign
      · rw [(hcopies.loaded request session hhandling name hname
          hforeign).owned other hpast howns, reload_bind_reload]
  · intro hnone
    have hforeign := hnone request mem_cons_self
    rw [(hcopies.loaded request session hhandling name hname hforeign).initial
      fun other hmem => hnone other (mem_cons_of_mem _ hmem),
      overlap.data_bind_reload]

theorem of_done (hcopies : Copies overlap run trace)
    {trace' : List (FilterEvent ι V)} (hon : OnSession overlap.id next)
    (hhandling : run.requests request = .handling session)
    (hheap : next.heap = run.heap)
    (hrequests : next.requests = Function.update run.requests request (.done session))
    (hvalue : ∀ name, overlap.valueAt trace' name = overlap.valueAt trace name)
    (hloaded : (lineage trace').loaded = (lineage trace).loaded)
    (htext : ∃ contents, next.store.get? overlap.id = some (.text contents) ∧
        ∀ name, IsAttribute name → Shows overlap trace'
          (lineage trace').stored name (contents.get? name))
    (hsaved : ∀ other ∈ (lineage trace').stored, other = request ∨
      ∃ session, run.requests other = .done session) :
    Copies overlap next trace' := by
  have hpast : ∀ {other}, (∃ session, run.requests other = .done session) →
      ∃ session, next.requests other = .done session :=
    done_update (by simp [hhandling]) hrequests
  have hkept : ∀ {other found}, next.requests other = .handling found →
      run.requests other = .handling found := by
    intro other found hother
    obtain ⟨-, hphase⟩ | ⟨-, hbefore⟩ := handling_cases hrequests hother
    · cases hphase
    · exact hbefore
  constructor
  · exact hon
  · exact htext
  · intro other found hother
    rw [hheap]
    exact hcopies.bounded other found (hkept hother)
  · intro other found hother name howns
    rw [hheap, hvalue]
    exact hcopies.own other found (hkept hother) name howns
  · intro other found hother name hname howns
    rw [hheap, hloaded]
    exact (hcopies.loaded other found (hkept hother) name hname howns).congr
      fun _ _ _ => hvalue name
  · exact fun other found hother second found' hsecond =>
      hcopies.apart other found (hkept hother) second found' (hkept hsecond)
  · intro other hother name howns
    rw [hvalue]
    exact hcopies.untouched other (waiting_update (by simp) hrequests hother) name howns
  · intro other hmem
    rcases hsaved other hmem with rfl | hdone
    · exact ⟨session, by rw [hrequests, Function.update_self]⟩
    · exact hpast hdone
  · intro other found hother past hmem
    rw [hloaded] at hmem
    exact hpast (hcopies.past other found (hkept hother) past hmem)

theorem saves (hcopies : Copies overlap run trace) {entry : Entry V}
    {response : List (FilterEvent ι V)} (hon : OnSession overlap.id next)
    (hhandling : run.requests request = .handling session)
    (hentry : Backend.redis.entry json session.data run.heap = some entry)
    (hheap : next.heap = run.heap)
    (hstore : next.store = run.store.set overlap.id entry)
    (hrequests : next.requests = Function.update run.requests request
      (.done session)) (hresponse : ∀ event ∈ response, ∃ cookie,
      event = .responded request cookie) :
    Copies overlap next (trace ++ .saved request overlap.id :: response) := by
  obtain ⟨contents, hcontents, rfl⟩ := Option.map_eq_some_iff.mp hentry
  have hlineage : lineage (trace ++ .saved request overlap.id :: response) =
      lineageStep (lineage trace) (.saved request overlap.id : FilterEvent ι V) := by
    rw [lineage_append, foldl_cons]
    apply lineage_silent
    intro event hmem
    obtain ⟨cookie, rfl⟩ := hresponse event hmem
    rfl
  have hvalue : ∀ name, overlap.valueAt (trace ++ .saved request overlap.id :: response) name =
        overlap.valueAt trace name :=
    valueAt_append_silent overlap (updates_saved hresponse)
  apply hcopies.of_done hon hhandling hheap hrequests hvalue
  · rw [hlineage]
    rfl
  · refine ⟨contents, by rw [hstore, Dict.get?_set_self], fun name hname => ?_⟩
    rw [hlineage, get?_reloadData hcontents]
    exact (hcopies.shows_saved hhandling hname).congr fun _ _ _ => hvalue name
  · rw [hlineage]
    intro other hmem
    rcases mem_cons.mp hmem with rfl | hpast
    · exact .inl rfl
    · exact .inr (hcopies.past request session hhandling other hpast)

theorem leaves (hcopies : Copies overlap run trace) (hon : OnSession overlap.id next)
    (hhandling : run.requests request = .handling session)
    (hheap : next.heap = run.heap) (hstore : next.store = run.store)
    (hrequests : next.requests = Function.update run.requests request
      (.done session)) (hevents : ∀ event ∈ events, (∃ cookie,
      event = .responded request cookie) ∨ event = .unsaved request overlap.id) :
    Copies overlap next (trace ++ events) := by
  have hlineage : lineage (trace ++ events) = lineage trace := by
    rw [lineage_append]
    apply lineage_silent
    intro event hmem
    obtain ⟨cookie, rfl⟩ | rfl := hevents event hmem <;> rfl
  have hvalue : ∀ name, overlap.valueAt (trace ++ events) name = overlap.valueAt trace name :=
    valueAt_append_silent overlap (updates_left hevents)
  obtain ⟨contents, htext, hcontents⟩ := hcopies.text
  apply hcopies.of_done hon hhandling hheap hrequests hvalue
  · rw [hlineage]
  · refine ⟨contents, by rw [hstore, htext], fun name hname => ?_⟩
    rw [hlineage]
    exact (hcontents name hname).congr fun _ _ _ => hvalue name
  · rw [hlineage]
    exact fun other hmem => .inr (hcopies.saved other hmem)

theorem moves (hcopies : Copies overlap run trace)
    (hmoves : Moves json .redis overlap.id (Updates overlap.schedule) run next events) :
    Copies overlap next (trace ++ events) := by
  have hon := hcopies.on.moves hmoves
  cases hmoves with
  | loads request entry now hwaiting hstored hheap hstore hrequests =>
    exact hcopies.loads hon hwaiting hstored hheap hstore hrequests
  | updates request session name value modified howns hhandling hnext hheap hstore hrequests =>
      exact hcopies.updates hon howns hhandling hnext hheap hstore hrequests
  | saves request session entry response hhandling hentry hheap hstore hrequests hresponse =>
      exact hcopies.saves hon hhandling hentry hheap hstore hrequests hresponse
  | leaves request session events hhandling hheap hstore hrequests hevents =>
    exact hcopies.leaves hon hhandling hheap hstore hrequests hevents

end Copies

theorem copies_execution (overlap : Overlap json ι) :
    Copies overlap (overlap.execution .redis).state (overlap.execution .redis).trace := by
  apply Machine.runFrom_invariant_of_allowed (Copies overlap)
    fun pick => pick ∈ overlap.schedule
  · intro state trace pick next events hcopies hpick hstep
    exact hcopies.moves (moves_of_step overlap hcopies.on hpick hstep)
  · refine ⟨(overlap.follows_start .redis).on,
      ⟨overlap.data, Dict.get?_set_self _ _ _, fun name _ => ?_⟩,
      fun _ _ => nofun, fun _ _ => nofun, fun _ _ => nofun, fun _ _ => nofun,
      fun _ _ _ _ => rfl, fun _ => nofun, fun _ _ => nofun⟩
    exact ⟨fun _ => nofun, fun _ => rfl⟩
  · exact fun _ hmem => hmem

/-! ## Both stores -/

omit [DecidableEq ι] in
/-- What a copy shows is right when nothing changed, or when it descends from
the request which made the change. -/
theorem Shows.eq_valueAt_iff {included : List ι} {name : String}
    {value : Option V} (hshows : Shows overlap trace included name value) :
    value = overlap.valueAt trace name ↔ (overlap.valueAt trace name ≠ overlap.data.get? name →
        (∃ request ∈ included, Updates overlap.schedule request name) ∧
          (overlap.valueAt trace name).bind json.reload = overlap.valueAt trace name) := by
  by_cases hincluded : ∃ request ∈ included, Updates overlap.schedule request name
  · obtain ⟨request, hmem, howns⟩ := hincluded
    rw [hshows.owned request hmem howns]
    constructor
    · exact fun hkept _ => ⟨⟨request, hmem, howns⟩, hkept⟩
    · intro hchanged
      by_cases hsame : overlap.valueAt trace name = overlap.data.get? name
      · rw [hsame, overlap.data_bind_reload]
      · exact (hchanged hsame).2
  · have hinitial := hshows.initial fun request hmem howns =>
      hincluded ⟨request, hmem, howns⟩
    rw [hinitial]
    constructor
    · exact fun hsame hchanged => absurd hsame.symm hchanged
    · intro hchanged
      by_contra hne
      exact hincluded (hchanged (Ne.symm hne)).1

theorem keepsUpdates_iff_savesDescend (overlap : Overlap json ι) :
    overlap.KeepsUpdates ↔ overlap.SavesDescend := by
  have hresult : ∀ name, overlap.valueAt (overlap.execution .redis).trace
      name = overlap.result name := by
    intro name
    rw [Overlap.valueAt, overlap.updates_execution, Overlap.result]
  obtain ⟨contents, htext, hshows⟩ := (copies_execution overlap).text
  have hsession : overlap.session .redis = some contents := by
    rw [Overlap.session, htext, Option.map_some, Entry.contents]
  have hredis : overlap.SavesDescend ↔
      ∀ name, IsAttribute name → contents.get? name = overlap.result name := by
    refine forall₂_congr fun name hname => ?_
    have hiff := (hshows name hname).eq_valueAt_iff
    rw [hresult] at hiff
    exact hiff.symm
  rw [hredis]
  constructor
  · intro hkeeps
    obtain ⟨session, hstored, hholds⟩ := hkeeps.holds .redis
    rw [Option.some.inj (hsession.symm.trans hstored)]
    exact hholds
  · intro hholds
    constructor
    · intro backend
      cases backend with
      | memory => exact holds_memory overlap
      | redis => exact ⟨contents, hsession, hholds⟩
    · intro memory redis hmemory hstored name hname
      obtain ⟨session, hshared, hshares⟩ := holds_memory overlap
      rw [Option.some.inj (hmemory.symm.trans hshared),
        Option.some.inj (hstored.symm.trans hsession), hshares name hname,
        hholds name hname]

def twoCarts : Overlap (⟨some, id, fun _ => rfl, fun _ _ _ => rfl⟩ : Json ℚ) ℕ where
  id := "s"
  data := .empty
  schedule := [.load 0 (some "s") 1 "", .load 1 (some "s") 1 "",
    .set 0 "a" 7, .set 1 "b" 8, .finish 0 false, .finish 1 false]
  id_ne := by decide
  kept := fun _ _ _ => rfl
  cookies := by
    intro request cookie now newId hmem
    simp only [mem_cons, FilterPick.load.injEq, reduceCtorEq, not_mem_nil, or_false] at hmem
    rcases hmem with ⟨-, hcookie, -⟩ | ⟨-, hcookie, -⟩ <;> exact hcookie
  stays := by simp
  lives := by simp
  attributes := by
    rintro request name (⟨value, hmem⟩ | hmem)
    · simp only [mem_cons, reduceCtorEq, FilterPick.set.injEq,
        not_mem_nil, or_false, false_or] at hmem
      rcases hmem with ⟨-, rfl, -⟩ | ⟨-, rfl, -⟩ <;> exact ⟨by decide, by decide⟩
    · simp at hmem
  apart := by
    rintro request other name (⟨value, hmem⟩ | hmem) (⟨value', hmem'⟩ | hmem')
    · simp only [mem_cons, reduceCtorEq, FilterPick.set.injEq,
        not_mem_nil, or_false, false_or] at hmem hmem'
      rcases hmem with ⟨rfl, rfl, -⟩ | ⟨rfl, rfl, -⟩ <;>
        rcases hmem' with ⟨rfl, hname, -⟩ | ⟨rfl, hname, -⟩ <;>
        first
          | rfl
          | exact absurd hname (by decide)
    all_goals simp at hmem hmem'

theorem not_keepsUpdates_twoCarts : ¬ twoCarts.KeepsUpdates := by
  intro hkeeps
  obtain ⟨session, hstored, hholds⟩ := hkeeps.holds .redis
  have hlost : (twoCarts.session .redis).bind (fun data => data.get? "a") =
      twoCarts.result "a" := by
    rw [hstored]
    exact hholds "a" ⟨by decide, by decide⟩
  revert hlost
  decide +kernel

end PyFly.Session
