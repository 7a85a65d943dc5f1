import PyFly.Library.Gather

/-!
# Gathering without a cancellation

As long as nobody is cancelled every coroutine is answered by a function, so
its course is determined however the schedule interleaves it with others.  A
gathering is the only place where the schedule can show.
-/

namespace PyFly.Library

open List

variable {Q R α β : Type}

structure Crew.Calm (crew : Crew Q R α β) : Prop where
  main : crew.interrupted = false
  gathering : ∀ child ∈ crew.gathering, child.cancelRequested = false
  orphans : ∀ child ∈ crew.orphans, child.cancelRequested = false

structure Child.Follows (rules : GatherRules Q R β)
    (trace : List (Signal Q R)) (code : Coroutine Q R β)
    (child : Child Q R β) : Prop where
  outcome : child.code.outcome rules.answer = code.outcome rules.answer
  played : ∃ played, code.queries rules.answer = played ++ child.code.queries rules.answer ∧
      ∀ query ∈ played, .answered query (rules.answer query) ∈ trace

def Crew.Tracked (rules : GatherRules Q R β) (crew : Crew Q R α β)
    (trace : List (Signal Q R)) : Prop :=
  List.Forall₂ (Child.Follows rules trace) (rules.gathered crew.main) crew.gathering

section CalmRuns

variable {rules : GatherRules Q R β}
variable {crew next : Crew Q R α β} {trace signals : List (Signal Q R)}

theorem spawned_calm (code : Coroutine Q R α) :
    ∀ child ∈ rules.spawned code, child.cancelRequested = false := by
  intro child hmem
  unfold GatherRules.spawned at hmem
  cases code with
  | done result => cases hmem
  | await query resume =>
    obtain ⟨code, _, hchild⟩ := mem_map.mp hmem
    rw [← hchild]
    rfl

theorem Crew.Calm.enter (hcalm : crew.Calm) (code : Coroutine Q R α) :
    (rules.enter crew code).1.Calm where
  main := rfl
  gathering := spawned_calm code
  orphans := by
    intro child hmem
    rcases mem_append.mp hmem with horphan | hgathering
    · exact hcalm.orphans child horphan
    · exact hcalm.gathering child hgathering

theorem Crew.Calm.step (hcalm : crew.Calm) {pick : CrewPick} (hpick : pick ≠ .cancelCaller)
    (h : rules.step crew pick = some (next, signals)) : next.Calm := by
  cases GatherRules.transition_of_step h with
  | replied pick query resume reply hmain hplain hreply =>
    exact hcalm.enter (resume reply)
  | gathered choice query resume codes reply hmain hchildren hcollect =>
    exact hcalm.enter (resume reply)
  | child index child query resume reply hchild hcode hreply =>
    refine ⟨hcalm.main, ?_, hcalm.orphans⟩
    intro other hmem
    rcases mem_or_eq_of_mem_set hmem with hold | hnew
    · exact hcalm.gathering other hold
    · rw [hnew]
  | orphan index child query resume reply hchild hcode hreply =>
    refine ⟨hcalm.main, hcalm.gathering, ?_⟩
    intro other hmem
    rcases mem_or_eq_of_mem_set hmem with hold | hnew
    · exact hcalm.orphans other hold
    · rw [hnew]
  | abandoned query resume codes reply hmain hchildren hcollect =>
    exact absurd rfl hpick
  | interrupted query resume codes hmain hchildren hcollect =>
    exact absurd rfl hpick

theorem Child.Follows.start (code : Coroutine Q R β) (trace : List (Signal Q R)) :
    Child.Follows rules trace code (Child.start code) := by
  refine ⟨rfl, [], rfl, ?_⟩
  intro query hmem
  cases hmem

variable {child : Child Q R β}

theorem Child.Follows.mono {code : Coroutine Q R β}
    (h : Child.Follows rules trace code child) (more : List (Signal Q R)) :
    Child.Follows rules (trace ++ more) code child := by
  obtain ⟨played, hqueries, hanswered⟩ := h.played
  refine ⟨h.outcome, played, hqueries, ?_⟩
  intro query hmem
  exact mem_append_left more (hanswered query hmem)

variable {query : Q}

theorem Child.Follows.resume {code : Coroutine Q R β}
    {resume : R → Coroutine Q R β} (h : Child.Follows rules trace code child)
    (hcode : child.code = .await query resume) (rest : List (Signal Q R)) :
    Child.Follows rules (trace ++ .answered query (rules.answer query) :: rest) code
      ⟨resume (rules.answer query), false⟩ := by
  obtain ⟨played, hqueries, hanswered⟩ := h.played
  have houtcome := h.outcome
  rw [hcode] at hqueries houtcome
  refine ⟨houtcome, played ++ [query], ?_, ?_⟩
  · rw [hqueries, append_assoc]
    rfl
  · intro other hmem
    rcases mem_append.mp hmem with hold | hnew
    · exact mem_append_left _ (hanswered other hold)
    · rw [mem_singleton.mp hnew]
      exact mem_append_right trace mem_cons_self

theorem tracked_enter (crew : Crew Q R α β) (code : Coroutine Q R α)
    (trace : List (Signal Q R)) :
    (rules.enter crew code).1.Tracked rules trace :=
  forall₂_spawned (fun code => Child.Follows.start code trace) code

theorem Crew.Tracked.mono (h : crew.Tracked rules trace)
    (more : List (Signal Q R)) : crew.Tracked rules (trace ++ more) :=
  List.Forall₂.imp (fun _ _ hfollows => hfollows.mono more) h

theorem Crew.Tracked.step (hcalm : crew.Calm)
    (htracked : crew.Tracked rules trace) {pick : CrewPick}
    (hpick : pick ≠ .cancelCaller)
    (h : rules.step crew pick = some (next, signals)) :
    next.Tracked rules (trace ++ signals) := by
  cases GatherRules.transition_of_step h with
  | replied pick query resume reply hmain hplain hreply =>
    exact tracked_enter crew (resume reply) _
  | gathered choice query resume codes reply hmain hchildren hcollect =>
    exact tracked_enter crew (resume reply) _
  | child index child query resume reply hchild hcode hreply =>
    have hquiet := hcalm.gathering child (mem_of_getElem? hchild)
    rw [hquiet, if_neg Bool.false_ne_true] at hreply
    rw [hreply]
    exact forall₂_set htracked hchild
      (fun _ _ hfollows => hfollows.mono _)
      (fun _ hfollows => hfollows.resume hcode _)
  | orphan index child query resume reply hchild hcode hreply =>
    exact htracked.mono _
  | abandoned query resume codes reply hmain hchildren hcollect =>
    exact absurd rfl hpick
  | interrupted query resume codes hmain hchildren hcollect =>
    exact absurd rfl hpick

theorem calm_runFrom {execution : Execution (Crew Q R α β) (Signal Q R)}
    (hcalm : execution.state.Calm)
    (htracked : execution.state.Tracked rules execution.trace)
    {schedule : List CrewPick} (hschedule : .cancelCaller ∉ schedule) :
    ((crewMachine rules).runFrom execution schedule).state.Calm ∧
      ((crewMachine rules).runFrom execution schedule).state.Tracked rules
        ((crewMachine rules).runFrom execution schedule).trace := by
  refine Machine.runFrom_invariant_of_allowed
    (fun crew trace => Crew.Calm crew ∧ crew.Tracked rules trace)
    (fun pick => pick ≠ CrewPick.cancelCaller) ?_ ⟨hcalm, htracked⟩ ?_
  · intro crew trace pick next signals hgood hpick hstep
    exact ⟨hgood.1.step hpick hstep, Crew.Tracked.step hgood.1 hgood.2 hpick hstep⟩
  · intro pick hmem heq
    exact hschedule (heq ▸ hmem)

theorem calm_start (rules : GatherRules Q R β) (code : Coroutine Q R α) :
    (rules.start code).1.Calm ∧ (rules.start code).1.Tracked rules (rules.start code).2 := by
  refine ⟨⟨rfl, spawned_calm code, ?_⟩, tracked_enter _ code _⟩
  intro child hmem
  cases hmem

variable {schedule : List CrewPick}

theorem calm_execute (rules : GatherRules Q R β) (code : Coroutine Q R α)
    (hschedule : .cancelCaller ∉ schedule) :
    (rules.execute code schedule).state.Calm ∧ (rules.execute code schedule).state.Tracked rules
        (rules.execute code schedule).trace :=
  calm_runFrom (calm_start rules code).1 (calm_start rules code).2 hschedule

theorem answered_notMem_opening {γ : Type} (code : Coroutine Q R γ)
    (query : Q) (reply : R) : .answered query reply ∉ opening code := by
  cases code with
  | done result => simp [opening]
  | await other resume => simp [opening]

theorem answered_notMem_enter (code : Coroutine Q R α) (query : Q)
    (reply : R) : .answered query reply ∉ (rules.enter crew code).2 := by
  intro h
  rcases mem_append.mp h with hmain | hchildren
  · exact answered_notMem_opening _ _ _ hmain
  · obtain ⟨child, _, hopening⟩ := mem_flatMap.mp hchildren
    exact answered_notMem_opening _ _ _ hopening

variable {reply : R}

theorem answered_mem_resumeWith {other : Q} {resume : R → Coroutine Q R α} {answer : R}
    (h : .answered other answer ∈ (rules.resumeWith crew query resume reply).2) :
    other = query ∧ answer = reply := by
  unfold GatherRules.resumeWith at h
  rcases mem_cons.mp h with hhead | hrest
  · exact ⟨(Signal.answered.inj hhead).1, (Signal.answered.inj hhead).2⟩
  · exact absurd hrest (answered_notMem_enter _ _ _)

def GatherRules.Foreseen (rules : GatherRules Q R β) (trace : List (Signal Q R)) : Prop :=
  ∀ query reply, .answered query reply ∈ trace →
    rules.children query = none → reply = rules.answer query

theorem GatherRules.Foreseen.step (hcalm : crew.Calm)
    (hforeseen : rules.Foreseen trace) {pick : CrewPick}
    (hpick : pick ≠ .cancelCaller)
    (h : rules.step crew pick = some (next, signals)) :
    rules.Foreseen (trace ++ signals) := by
  intro query reply hmem hplain
  rcases mem_append.mp hmem with hold | hnew
  · exact hforeseen query reply hold hplain
  · cases GatherRules.transition_of_step h with
    | replied pick asked resume answer hmain _ hreply =>
      obtain ⟨hquery, hanswer⟩ := answered_mem_resumeWith hnew
      rcases hreply with ⟨_, hforetold⟩ | ⟨hcancel, _⟩
      · rw [hanswer, hforetold, hquery]
      · exact absurd hcancel hpick
    | gathered choice asked resume codes answer hmain hchildren hcollect =>
      obtain ⟨hquery, _⟩ := answered_mem_resumeWith hnew
      rw [hquery, hchildren] at hplain
      cases hplain
    | child index child asked resume answer hchild hcode hreply =>
      rcases mem_cons.mp hnew with hhead | hopening
      · obtain ⟨hquery, hanswer⟩ := Signal.answered.inj hhead
        rw [hcalm.gathering child (mem_of_getElem? hchild), if_neg Bool.false_ne_true] at hreply
        rw [hanswer, hreply, hquery]
      · exact absurd hopening (answered_notMem_opening _ _ _)
    | orphan index child asked resume answer hchild hcode hreply =>
      rcases mem_cons.mp hnew with hhead | hopening
      · obtain ⟨hquery, hanswer⟩ := Signal.answered.inj hhead
        rw [hcalm.orphans child (mem_of_getElem? hchild), if_neg Bool.false_ne_true] at hreply
        rw [hanswer, hreply, hquery]
      · exact absurd hopening (answered_notMem_opening _ _ _)
    | abandoned asked resume codes answer hmain hchildren hcollect =>
      exact absurd rfl hpick
    | interrupted asked resume codes hmain hchildren hcollect =>
      exact absurd rfl hpick

theorem foreseen_execute (rules : GatherRules Q R β) (code : Coroutine Q R α)
    (hschedule : .cancelCaller ∉ schedule) :
    rules.Foreseen (rules.execute code schedule).trace := by
  refine (Machine.runFrom_invariant_of_allowed
    (fun crew trace => Crew.Calm crew ∧ rules.Foreseen trace)
    (fun pick => pick ≠ CrewPick.cancelCaller) ?_
    ⟨(calm_start rules code).1, ?_⟩ ?_).2
  · intro crew trace pick next signals hgood hpick hstep
    exact ⟨hgood.1.step hpick hstep, GatherRules.Foreseen.step hgood.1 hgood.2 hpick hstep⟩
  · intro query reply hmem
    exact absurd hmem (@answered_notMem_enter _ _ _ _ rules
      ⟨code, false, [], []⟩ code query reply)
  · intro pick hmem heq
    exact hschedule (heq ▸ hmem)

/-! ## Programs without gatherings -/

def script (answer : Q → R) (queries : List Q) : List (Signal Q R) :=
  queries.flatMap fun query => [.issued query, .answered query (answer query)]

def pendingScript (answer : Q → R) (code : Coroutine Q R α) : List (Signal Q R) :=
  match code with
  | .done _ => []
  | .await query resume =>
    .answered query (answer query) :: script answer ((resume (answer query)).queries answer)

theorem opening_append_pendingScript (answer : Q → R) (code : Coroutine Q R α) :
    opening code ++ pendingScript answer code = script answer (code.queries answer) := by
  cases code with
  | done result => rfl
  | await query resume => rfl

theorem script_cons (answer : Q → R) (query : Q) (rest : List Q) :
    script answer (query :: rest) = .issued query :: .answered query (answer query) ::
        script answer rest := rfl

theorem script_append (answer : Q → R) (first second : List Q) :
    script answer (first ++ second) = script answer first ++ script answer second :=
  flatMap_append

variable {answer : Q → R} {queries : List Q}

theorem issued_mem_script : .issued query ∈ script answer queries ↔ query ∈ queries := by
  simp [script]

theorem answered_mem_script : .answered query reply ∈ script answer queries ↔
      query ∈ queries ∧ reply = answer query := by
  simp only [script, mem_flatMap, mem_cons, reduceCtorEq,
    Signal.answered.injEq, not_mem_nil, or_false, false_or]
  constructor
  · intro h
    obtain ⟨other, hmem, hquery, hreply⟩ := h
    rw [hquery]
    exact ⟨hmem, hreply⟩
  · intro h
    exact ⟨query, h.1, rfl, h.2⟩

theorem countP_issues_script (answer : Q → R) (counted : Q → Bool) (queries : List Q) :
    (script answer queries).countP (Signal.issues counted) = queries.countP counted := by
  induction queries with
  | nil => rfl
  | cons query rest ih =>
    rw [script_cons, countP_cons, countP_cons, countP_cons, ih]
    rfl

theorem filter_script (answer : Q → R) (counted : Q → Bool) (queries : List Q) :
    (script answer queries).filter (fun signal => counted signal.query) =
      script answer (queries.filter counted) := by
  induction queries with
  | nil => rfl
  | cons query rest ih =>
    have hissued : (Signal.issued query : Signal Q R).query = query := rfl
    have hanswered : (Signal.answered query (answer query)).query = query := rfl
    rw [script_cons, filter_cons, filter_cons, filter_cons, ih, hissued, hanswered]
    cases counted query with
    | false => rfl
    | true => rfl

def Signal.issuedView {γ : Type} (view : Q → Option γ) : Signal Q R → Option γ
  | .issued query => view query
  | .answered _ _ => none

theorem filterMap_script {γ : Type} (answer : Q → R) (view : Q → Option γ) (queries : List Q) :
    (script answer queries).filterMap (Signal.issuedView view) = queries.filterMap view := by
  induction queries with
  | nil => rfl
  | cons query rest ih =>
    rw [script_cons, filterMap_cons, filterMap_cons, filterMap_cons, ih]
    rfl

theorem split_script {before after : List (Signal Q R)}
    (h : script answer queries = before ++ .answered query reply :: after) :
    ∃ earlier later, queries = earlier ++ query :: later ∧
      reply = answer query ∧ after = script answer later := by
  induction queries generalizing before with
  | nil =>
    exact absurd h (by simp [script])
  | cons first rest ih =>
    rw [script_cons] at h
    cases before with
    | nil => cases h
    | cons head before =>
      cases before with
      | nil =>
        simp only [cons_append, nil_append, List.cons.injEq, Signal.answered.injEq] at h
        obtain ⟨_, ⟨hquery, hreply⟩, hafter⟩ := h
        refine ⟨[], rest, ?_, ?_, hafter.symm⟩
        · rw [hquery]
          rfl
        · rw [← hreply, hquery]
      | cons second before =>
        simp only [cons_append, List.cons.injEq] at h
        obtain ⟨earlier, later, hrest, hreply, hafter⟩ := ih h.2.2
        refine ⟨first :: earlier, later, ?_, hreply, hafter⟩
        rw [hrest]
        rfl

structure Crew.Solo (rules : GatherRules Q R β) (code : Coroutine Q R α)
    (crew : Crew Q R α β) (trace : List (Signal Q R)) : Prop where
  plain : crew.main.Always fun query => rules.children query = none
  gathering : crew.gathering = []
  orphans : crew.orphans = []
  outcome : crew.main.outcome rules.answer = code.outcome rules.answer
  dialogue : trace ++ pendingScript rules.answer crew.main =
    script rules.answer (code.queries rules.answer)

variable {code : Coroutine Q R α}

theorem spawned_of_plain (hplain : code.Always fun query => rules.children query = none) :
    rules.spawned code = [] := by
  unfold GatherRules.spawned
  cases code with
  | done result => rfl
  | await query resume =>
    dsimp only
    rw [hplain.1]
    rfl

theorem solo_start (hplain : code.Always fun query => rules.children query = none) :
    (rules.start code).1.Solo rules code (rules.start code).2 := by
  unfold GatherRules.start GatherRules.enter
  rw [spawned_of_plain hplain]
  refine ⟨hplain, rfl, rfl, rfl, ?_⟩
  show opening code ++ [] ++ pendingScript rules.answer code = _
  rw [append_nil]
  exact opening_append_pendingScript rules.answer code

theorem Crew.Solo.step {code : Coroutine Q R α}
    (hsolo : crew.Solo rules code trace) {pick : CrewPick}
    (hpick : pick ≠ .cancelCaller)
    (h : rules.step crew pick = some (next, signals)) :
    next.Solo rules code (trace ++ signals) := by
  cases GatherRules.transition_of_step h with
  | replied pick query resume reply hmain hplain hreply =>
    have hanswer : reply = rules.answer query := by
      rcases hreply with ⟨_, hanswer⟩ | ⟨hcancel, _⟩
      · exact hanswer
      · exact absurd hcancel hpick
    have hall := hsolo.plain
    have houtcome := hsolo.outcome
    have hscript := hsolo.dialogue
    rw [hmain] at hall houtcome hscript
    have hrest := hall.2 reply
    unfold GatherRules.resumeWith GatherRules.enter
    rw [spawned_of_plain hrest, hsolo.gathering, hsolo.orphans]
    refine ⟨hrest, rfl, rfl, ?_, ?_⟩
    · rw [hanswer]
      exact houtcome
    · have hopening :=
        opening_append_pendingScript rules.answer (resume reply)
      rw [flatMap_nil, append_assoc, cons_append]
      dsimp only
      rw [append_nil, hopening, hanswer]
      exact hscript
  | gathered choice query resume codes reply hmain hchildren hcollect =>
    have hall := hsolo.plain
    rw [hmain] at hall
    rw [hall.1] at hchildren
    cases hchildren
  | child index child query resume reply hchild hcode hreply =>
    rw [hsolo.gathering] at hchild
    cases hchild
  | orphan index child query resume reply hchild hcode hreply =>
    rw [hsolo.orphans] at hchild
    cases hchild
  | abandoned query resume codes reply hmain hchildren hcollect =>
    exact absurd rfl hpick
  | interrupted query resume codes hmain hchildren hcollect =>
    exact absurd rfl hpick

theorem solo_execute (hplain : code.Always fun query => rules.children query = none)
    (hschedule : .cancelCaller ∉ schedule) :
    (rules.execute code schedule).state.Solo rules code
      (rules.execute code schedule).trace := by
  refine Machine.runFrom_invariant_of_allowed
    (fun crew trace => Crew.Solo rules code crew trace)
    (fun pick => pick ≠ CrewPick.cancelCaller) ?_ (solo_start hplain) ?_
  · intro crew trace pick next signals hsolo hpick hstep
    exact hsolo.step hpick hstep
  · intro pick hmem heq
    exact hschedule (heq ▸ hmem)

theorem Crew.Solo.trace_prefix (hsolo : crew.Solo rules code trace) :
    trace <+: script rules.answer (code.queries rules.answer) := by
  rw [← hsolo.dialogue]
  exact prefix_append trace _

theorem Crew.Solo.trace_eq (hsolo : crew.Solo rules code trace) {result : α}
    (hdone : crew.main = .done result) :
    trace = script rules.answer (code.queries rules.answer) ∧
      result = code.outcome rules.answer := by
  have hscript := hsolo.dialogue
  have houtcome := hsolo.outcome
  rw [hdone] at hscript houtcome
  refine ⟨?_, houtcome⟩
  rw [← hscript]
  exact (append_nil trace).symm

/-! ## Gatherings which nobody leaves early -/

def Foretold (rules : GatherRules Q R β) (code : Coroutine Q R β) (result : Option β) : Prop :=
  ∀ value, result = some value → value = code.outcome rules.answer

def GatherRules.Agreeable (rules : GatherRules Q R β) (query : Q) : Prop :=
  ∀ codes choice results reply, rules.children query = some codes →
    List.Forall₂ (Foretold rules) codes results →
    rules.collect query false choice results = some reply →
    reply = rules.answer query ∧ ∀ result ∈ results, result.isSome = true

def GatherRules.childWeight (rules : GatherRules Q R β)
    (counted : Q → Bool) (codes : List (Coroutine Q R β)) : ℕ :=
  (codes.map fun code => (code.queries rules.answer).countP counted).sum

def GatherRules.weight (rules : GatherRules Q R β) (counted : Q → Bool)
    (queries : List Q) : ℕ :=
  (queries.map fun query => (counted query).toNat +
    rules.childWeight counted ((rules.children query).getD [])).sum

def remaining (rules : GatherRules Q R β) (counted : Q → Bool)
    (children : List (Child Q R β)) : ℕ :=
  (children.map fun child =>
    (child.code.queries rules.answer).countP counted).sum

structure Crew.Conserved (rules : GatherRules Q R β) (counted : Q → Bool)
    (code : Coroutine Q R α) (crew : Crew Q R α β)
    (trace : List (Signal Q R)) : Prop where
  agreeable : ∀ query ∈ crew.main.queries rules.answer, rules.Agreeable query
  outcome : crew.main.outcome rules.answer = code.outcome rules.answer
  finished : ∀ child ∈ crew.orphans, child.code.isDone = true
  sum : trace.countP (Signal.answers counted) +
      rules.weight counted (crew.main.queries rules.answer) +
      remaining rules counted (crew.gathering ++ crew.orphans) =
    rules.weight counted (code.queries rules.answer) +
      rules.childWeight counted (rules.gathered crew.main)

theorem remaining_spawned (rules : GatherRules Q R β) (counted : Q → Bool)
    (code : Coroutine Q R α) :
    remaining rules counted (rules.spawned code) =
      rules.childWeight counted (rules.gathered code) := by
  unfold remaining GatherRules.childWeight GatherRules.spawned GatherRules.gathered
  cases code with
  | done result => rfl
  | await query resume =>
    dsimp only
    rw [map_map]
    rfl

theorem foretold_results (htracked : crew.Tracked rules trace) :
    List.Forall₂ (Foretold rules) (rules.gathered crew.main)
      (crew.gathering.map fun child => child.code.result?) := by
  rw [forall₂_map_right_iff]
  refine List.Forall₂.imp ?_ htracked
  intro code child hfollows value hvalue
  rw [← hfollows.outcome]
  exact (Coroutine.outcome_of_result? rules.answer hvalue).symm

theorem answers_opening_spawned (counted : Q → Bool)
    (code : Coroutine Q R α) (children : List (Child Q R β)) :
    (opening code ++ children.flatMap fun child =>
      opening child.code).countP (Signal.answers counted) = 0 := by
  rw [countP_append, opening_answers, flatMap_opening_answers]

theorem Crew.Conserved.resumeWith {counted : Q → Bool}
    (h : crew.Conserved rules counted code trace) {resume : R → Coroutine Q R α}
    (hmain : crew.main = .await query resume)
    (hgathering : ∀ child ∈ crew.gathering, child.code.isDone = true) :
    (rules.resumeWith crew query resume (rules.answer query)).1.Conserved rules counted code
      (trace ++ (rules.resumeWith crew query resume (rules.answer query)).2) := by
  refine ⟨?_, ?_, ?_, ?_⟩
  · intro other hmem
    apply h.agreeable other
    rw [hmain]
    exact mem_cons_of_mem query hmem
  · rw [← h.outcome, hmain]
    rfl
  · intro child hmem
    rcases mem_append.mp hmem with horphan | hchild
    · exact h.finished child horphan
    · exact hgathering child hchild
  · have hsum := h.sum
    have hqueries : crew.main.queries rules.answer =
        query :: (resume (rules.answer query)).queries rules.answer := by
      rw [hmain]
      rfl
    have hgathered : rules.gathered crew.main = (rules.children query).getD [] := by
      rw [hmain]
      rfl
    have hopening := answers_opening_spawned counted (resume (rules.answer query))
      (rules.spawned (resume (rules.answer query)))
    have hspawned := remaining_spawned rules counted (resume (rules.answer query))
    have hanswered : (Signal.answered query (rules.answer query)).answers
        counted = counted query := rfl
    unfold GatherRules.resumeWith GatherRules.enter
    dsimp only
    rw [hqueries, hgathered] at hsum
    unfold GatherRules.weight remaining at hsum
    unfold remaining at hspawned
    unfold GatherRules.weight remaining
    rw [map_cons, sum_cons] at hsum
    rw [countP_append, countP_cons, hopening, hanswered]
    simp only [map_append, sum_append] at hsum ⊢
    rw [hspawned]
    cases hcounted : counted query with
    | false =>
      rw [hcounted, Bool.toNat_false] at hsum
      simp only [Bool.false_eq_true, if_false]
      omega
    | true =>
      rw [hcounted, Bool.toNat_true] at hsum
      simp only [if_true]
      omega

theorem remaining_set (rules : GatherRules Q R β) (counted : Q → Bool)
    {children : List (Child Q R β)} {index : ℕ} {resume : R → Coroutine Q R β}
    (hchild : children[index]? = some child)
    (hcode : child.code = .await query resume) :
    remaining rules counted (children.set index ⟨resume (rules.answer query), false⟩) +
        (counted query).toNat =
      remaining rules counted children := by
  have hset := sum_map_set
    (fun child : Child Q R β =>
      (child.code.queries rules.answer).countP counted)
    ⟨resume (rules.answer query), false⟩ hchild
  have hqueries : child.code.queries rules.answer =
      query :: (resume (rules.answer query)).queries rules.answer := by
    rw [hcode]
    rfl
  rw [hqueries, countP_cons] at hset
  unfold remaining
  cases hcounted : counted query with
  | false =>
    simp only [hcounted, Bool.false_eq_true, if_false] at hset
    simp only [Bool.toNat_false]
    omega
  | true =>
    simp only [hcounted, if_true] at hset
    simp only [Bool.toNat_true]
    omega

theorem Crew.Conserved.step {counted : Q → Bool} {code : Coroutine Q R α}
    (hcalm : crew.Calm) (htracked : crew.Tracked rules trace)
    (h : crew.Conserved rules counted code trace) {pick : CrewPick}
    (hpick : pick ≠ .cancelCaller)
    (hstep : rules.step crew pick = some (next, signals)) :
    next.Conserved rules counted code (trace ++ signals) := by
  cases GatherRules.transition_of_step hstep with
  | replied pick query resume reply hmain hplain hreply =>
    have hanswer : reply = rules.answer query := by
      rcases hreply with ⟨_, hanswer⟩ | ⟨hcancel, _⟩
      · exact hanswer
      · exact absurd hcancel hpick
    rw [hanswer]
    apply h.resumeWith hmain
    intro child hmem
    unfold Crew.Tracked GatherRules.gathered at htracked
    rw [hmain] at htracked
    dsimp only at htracked
    rw [hplain] at htracked
    rw [forall₂_nil_left_iff.mp htracked] at hmem
    cases hmem
  | gathered choice query resume codes reply hmain hchildren hcollect =>
    have hforetold := foretold_results htracked
    unfold GatherRules.gathered at hforetold
    rw [hmain] at hforetold
    dsimp only at hforetold
    rw [hchildren] at hforetold
    rw [hcalm.main] at hcollect
    have hagreeable : rules.Agreeable query := by
      apply h.agreeable
      rw [hmain]
      exact mem_cons_self
    obtain ⟨hanswer, hdone⟩ :=
      hagreeable codes choice _ reply hchildren hforetold hcollect
    rw [hanswer]
    apply h.resumeWith hmain
    intro child hmem
    exact isDone_of_result? (hdone _ (mem_map_of_mem hmem))
  | child index child query resume reply hchild hcode hreply =>
    have hquiet := hcalm.gathering child (mem_of_getElem? hchild)
    rw [hquiet, if_neg Bool.false_ne_true] at hreply
    rw [hreply]
    refine ⟨h.agreeable, h.outcome, h.finished, ?_⟩
    have hsum := h.sum
    have hset := remaining_set rules counted hchild hcode
    have hanswered : (Signal.answered query (rules.answer query)).answers
        counted = counted query := rfl
    unfold remaining at hsum hset ⊢
    simp only [map_append, sum_append, countP_append,
      countP_cons, opening_answers, hanswered] at hsum ⊢
    cases hcounted : counted query with
    | false =>
      simp only [hcounted, Bool.toNat_false] at hset
      simp only [Bool.false_eq_true, if_false]
      omega
    | true =>
      simp only [hcounted, Bool.toNat_true] at hset
      simp only [if_true]
      omega
  | orphan index child query resume reply hchild hcode hreply =>
    have hdone := h.finished child (mem_of_getElem? hchild)
    rw [hcode] at hdone
    cases hdone
  | abandoned query resume codes reply hmain hchildren hcollect =>
    exact absurd rfl hpick
  | interrupted query resume codes hmain hchildren hcollect =>
    exact absurd rfl hpick

theorem conserved_start (counted : Q → Bool)
    (hagreeable : ∀ query ∈ code.queries rules.answer, rules.Agreeable query) :
    (rules.start code).1.Conserved rules counted code (rules.start code).2 := by
  refine ⟨hagreeable, rfl, ?_, ?_⟩
  · intro child hmem
    cases hmem
  · have hopening := answers_opening_spawned counted code (rules.spawned code)
    have hspawned := remaining_spawned rules counted code
    unfold GatherRules.start GatherRules.enter
    dsimp only
    rw [hopening]
    unfold remaining at hspawned ⊢
    rw [append_nil, append_nil, hspawned, Nat.zero_add]

theorem conserved_execute (hagreeable : ∀ query ∈ code.queries rules.answer,
      rules.Agreeable query) (counted : Q → Bool)
    (hschedule : .cancelCaller ∉ schedule) :
    (rules.execute code schedule).state.Conserved rules counted code
      (rules.execute code schedule).trace := by
  have hgood : (rules.execute code schedule).state.Calm ∧
        (rules.execute code schedule).state.Tracked rules (rules.execute code schedule).trace ∧
        (rules.execute code schedule).state.Conserved rules counted code
          (rules.execute code schedule).trace := by
    refine Machine.runFrom_invariant_of_allowed
      (fun crew trace => Crew.Calm crew ∧ crew.Tracked rules trace ∧
        Crew.Conserved rules counted code crew trace)
      (fun pick => pick ≠ CrewPick.cancelCaller) ?_ ?_ ?_
    · intro crew trace pick next signals hgood hpick hstep
      rcases hgood with ⟨hcalm, htracked, hconserved⟩
      exact ⟨hcalm.step hpick hstep, Crew.Tracked.step hcalm htracked hpick hstep,
        hconserved.step hcalm htracked hpick hstep⟩
    · refine ⟨⟨rfl, spawned_calm code, ?_⟩, tracked_enter _ code _,
        conserved_start counted hagreeable⟩
      intro child hmem
      cases hmem
    · intro pick hmem heq
      exact hschedule (heq ▸ hmem)
  exact hgood.2.2

/-- Once the main coroutine has finished, everybody has, the result is the one
the code determines, and every kind of query was made and answered as often
as the program text says. -/
theorem agreeable_execute (hagreeable : ∀ query ∈ code.queries rules.answer,
      rules.Agreeable query) (counted : Q → Bool)
    (hschedule : .cancelCaller ∉ schedule)
    (hdone : (rules.execute code schedule).state.main.isDone = true) :
    (rules.execute code schedule).state.Over (code.outcome rules.answer) ∧
      (rules.execute code schedule).trace.countP (Signal.issues counted) =
        rules.weight counted (code.queries rules.answer) ∧
      (rules.execute code schedule).trace.countP (Signal.answers counted) =
        rules.weight counted (code.queries rules.answer) := by
  have hconserved := conserved_execute hagreeable counted hschedule
  have hbalanced := balanced_execute rules counted code schedule
  have htracked := (calm_execute rules code hschedule).2
  cases hmain : (rules.execute code schedule).state.main with
  | await query resume =>
    rw [hmain] at hdone
    cases hdone
  | done result =>
    have hgathering : (rules.execute code schedule).state.gathering = [] := by
      unfold Crew.Tracked GatherRules.gathered at htracked
      rw [hmain] at htracked
      exact forall₂_nil_left_iff.mp htracked
    have hnothing : ∀ weigh : Child Q R β → ℕ,
        (∀ child, child.code.isDone = true → weigh child = 0) →
        ((rules.execute code schedule).state.orphans.map weigh).sum = 0 := by
      intro weigh hweigh
      apply sum_eq_zero
      intro weighed hmem
      obtain ⟨child, hchild, hsame⟩ := mem_map.mp hmem
      rw [← hsame]
      exact hweigh child (hconserved.finished child hchild)
    have hsum := hconserved.sum
    unfold Balanced Crew.waiting at hbalanced
    unfold remaining GatherRules.gathered at hsum
    rw [hmain, hgathering, nil_append, hnothing] at hsum hbalanced
    · have hzero : rules.weight counted ((Coroutine.done result : Coroutine Q R α).queries
            rules.answer) = 0 := rfl
      have hwaits : (Coroutine.done result : Coroutine Q R α).waitsFor counted = 0 :=
        rfl
      have hchildren : rules.childWeight counted [] = 0 := rfl
      dsimp only at hsum
      refine ⟨⟨?_, hgathering, hconserved.finished⟩, ?_, ?_⟩
      · rw [hmain, ← hconserved.outcome, hmain]
        rfl
      · omega
      · omega
    · intro child hchild
      cases hcode : child.code with
      | done value => rfl
      | await query resume =>
        rw [hcode] at hchild
        cases hchild
    · intro child hchild
      cases hcode : child.code with
      | done value => rfl
      | await query resume =>
        rw [hcode] at hchild
        cases hchild

end CalmRuns

section Schedules

variable (rules : GatherRules Q R β)

/-- The child after it has run to its end undisturbed. -/
def Child.finish (rules : GatherRules Q R β) (child : Child Q R β) : Child Q R β :=
  ⟨.done (child.code.outcome rules.answer), false⟩

theorem exists_schedule_child {index : ℕ} {child : Child Q R β}
    {crew : Crew Q R α β} (trace : List (Signal Q R))
    (hchild : crew.gathering[index]? = some child)
    (hcalm : child.cancelRequested = false) :
    ∃ schedule, .cancelCaller ∉ schedule ∧
      ((crewMachine rules).runFrom ⟨crew, trace⟩ schedule).state = { crew with
          gathering := crew.gathering.set index (child.finish rules) } := by
  obtain ⟨code, cancelRequested⟩ := child
  dsimp only at hcalm
  rw [hcalm] at hchild ⊢
  induction code generalizing crew trace with
  | done result =>
    refine ⟨[], not_mem_nil, ?_⟩
    have hsame : crew.gathering.set index ⟨.done result, false⟩ = crew.gathering := by
      obtain ⟨hlt, hget⟩ := List.getElem?_eq_some_iff.mp hchild
      rw [← hget]
      exact set_getElem_self hlt
    show crew = { crew with
      gathering := crew.gathering.set index ⟨.done result, false⟩ }
    rw [hsame]
  | await query resume ih =>
    have hstep : (crewMachine rules).step crew (.child index) = some ({ crew with
            gathering := crew.gathering.set index
              ⟨resume (rules.answer query), false⟩ },
          .answered query (rules.answer query) :: opening (resume (rules.answer query))) := by
      show (rules.resumeAt crew.gathering index).map _ = _
      unfold GatherRules.resumeAt
      rw [hchild]
      rfl
    obtain ⟨hlt, _⟩ := List.getElem?_eq_some_iff.mp hchild
    obtain ⟨schedule, hschedule, hreached⟩ :=
      @ih (rules.answer query) { crew with
          gathering := crew.gathering.set index
            ⟨resume (rules.answer query), false⟩ }
        (trace ++ (.answered query (rules.answer query) ::
          opening (resume (rules.answer query))))
        (List.getElem?_set_self hlt)
    refine ⟨.child index :: schedule, ?_, ?_⟩
    · intro hmem
      rcases mem_cons.mp hmem with hhead | htail
      · cases hhead
      · exact hschedule htail
    · rw [Machine.runFrom_cons, Machine.advance_of_step hstep, hreached, set_set]
      rfl

theorem notMem_append {first second : List CrewPick}
    (hfirst : .cancelCaller ∉ first) (hsecond : .cancelCaller ∉ second) :
    .cancelCaller ∉ first ++ second := by
  intro hmem
  rcases mem_append.mp hmem with hleft | hright
  · exact hfirst hleft
  · exact hsecond hright

theorem exists_schedule_children {crew : Crew Q R α β}
    (trace : List (Signal Q R)) {front rest : List (Child Q R β)}
    (hgathering : crew.gathering = front ++ rest)
    (hcalm : ∀ child ∈ rest, child.cancelRequested = false) :
    ∃ schedule, .cancelCaller ∉ schedule ∧
      ((crewMachine rules).runFrom ⟨crew, trace⟩ schedule).state = { crew with
          gathering := front ++ rest.map (Child.finish rules) } := by
  induction rest generalizing crew trace front with
  | nil =>
    refine ⟨[], not_mem_nil, ?_⟩
    show crew = { crew with gathering := front ++ [] }
    rw [← hgathering]
  | cons child rest ih =>
    have hchild : crew.gathering[front.length]? = some child := by
      rw [hgathering, List.getElem?_append_right (Nat.le_refl _),
        Nat.sub_self, List.getElem?_cons_zero]
    obtain ⟨first, hfirst, hreached⟩ :=
      exists_schedule_child rules trace hchild (hcalm child mem_cons_self)
    have hset : crew.gathering.set front.length (child.finish rules) =
        (front ++ [child.finish rules]) ++ rest := by
      rw [hgathering, set_append_right _ _ (Nat.le_refl _),
        Nat.sub_self, set_cons_zero, append_assoc]
      rfl
    obtain ⟨second, hsecond, hdone⟩ :=
      @ih { crew with
          gathering := crew.gathering.set front.length (child.finish rules) }
        ((crewMachine rules).runFrom ⟨crew, trace⟩ first).trace _ hset
        fun other hmem => hcalm other (mem_cons_of_mem _ hmem)
    refine ⟨first ++ second, notMem_append hfirst hsecond, ?_⟩
    rw [Machine.runFrom_append]
    rw [← hreached] at hdone
    rw [hdone, map_cons, append_assoc, hreached]
    rfl

variable {rules}

def GatherRules.Feasible (rules : GatherRules Q R β) (query : Q) : Prop :=
  ∀ codes, rules.children query = some codes → rules.collect query false 0
        (codes.map fun code => some (code.outcome rules.answer)) =
      some (rules.answer query)

theorem finish_results {crew : Crew Q R α β} {trace : List (Signal Q R)}
    (htracked : crew.Tracked rules trace) :
    ((crew.gathering.map (Child.finish rules)).map fun child =>
        child.code.result?) =
      (rules.gathered crew.main).map fun code =>
        some (code.outcome rules.answer) := by
  unfold Crew.Tracked at htracked
  generalize rules.gathered crew.main = codes, crew.gathering = children at htracked ⊢
  induction htracked with
  | nil => rfl
  | cons hhead htail ih =>
    rw [map_cons, map_cons, map_cons, ih]
    congr 1
    show some _ = some _
    rw [hhead.outcome]

/-- The children of the gathering in progress have not started yet. -/
def Crew.Fresh (rules : GatherRules Q R β) (crew : Crew Q R α β) : Prop :=
  crew.gathering = rules.spawned crew.main

theorem exists_schedule_resume {crew : Crew Q R α β}
    {trace : List (Signal Q R)} (hcalm : crew.Calm)
    (htracked : crew.Tracked rules trace) {query : Q}
    {resume : R → Coroutine Q R α}
    (hmain : crew.main = .await query resume)
    (hfeasible : rules.Feasible query) :
    ∃ schedule, .cancelCaller ∉ schedule ∧
      ((crewMachine rules).runFrom ⟨crew, trace⟩ schedule).state.main =
        resume (rules.answer query) ∧
      ((crewMachine rules).runFrom ⟨crew, trace⟩ schedule).state.Fresh
        rules := by
  cases hchildren : rules.children query with
  | none =>
    have hstep : (crewMachine rules).step crew (.main 0) =
        some (rules.resumeWith crew query resume (rules.answer query)) := by
      show rules.resumeMain 0 crew = _
      unfold GatherRules.resumeMain
      rw [hmain]
      dsimp only
      rw [hchildren]
    refine ⟨[.main 0], by simp, ?_⟩
    rw [Machine.runFrom_cons, Machine.advance_of_step hstep]
    exact ⟨rfl, rfl⟩
  | some codes =>
    obtain ⟨schedule, hschedule, hreached⟩ :=
      exists_schedule_children rules trace (nil_append crew.gathering).symm hcalm.gathering
    have hgathered : rules.gathered crew.main = codes := by
      rw [hmain]
      show (rules.children query).getD [] = codes
      rw [hchildren]
      rfl
    have hresults := finish_results htracked
    rw [hgathered] at hresults
    have hcollect := hfeasible codes hchildren
    rw [← hresults, ← hcalm.main] at hcollect
    rw [nil_append] at hreached
    have hstep : (crewMachine rules).step
        ((crewMachine rules).runFrom ⟨crew, trace⟩ schedule).state
        (.main 0) =
        some (rules.resumeWith { crew with
            gathering := crew.gathering.map (Child.finish rules) }
          query resume (rules.answer query)) := by
      rw [hreached]
      show rules.resumeMain 0 _ = _
      unfold GatherRules.resumeMain
      dsimp only
      rw [hmain]
      dsimp only
      rw [hchildren]
      dsimp only
      rw [hcollect]
      rfl
    refine ⟨schedule ++ [.main 0], notMem_append hschedule (by simp), ?_⟩
    rw [Machine.runFrom_append, Machine.runFrom_cons, Machine.advance_of_step hstep]
    exact ⟨rfl, rfl⟩

theorem exists_schedule_bind {γ : Type} {first : Coroutine Q R γ}
    {next : γ → Coroutine Q R α} {crew : Crew Q R α β}
    {trace : List (Signal Q R)} (hcalm : crew.Calm)
    (htracked : crew.Tracked rules trace)
    (hfresh : crew.Fresh rules) (hmain : crew.main = first.bind next)
    (hfeasible : ∀ query ∈ first.queries rules.answer, rules.Feasible query) :
    ∃ schedule, .cancelCaller ∉ schedule ∧
      ((crewMachine rules).runFrom ⟨crew, trace⟩ schedule).state.main =
        next (first.outcome rules.answer) ∧
      ((crewMachine rules).runFrom ⟨crew, trace⟩ schedule).state.Fresh
        rules := by
  induction first generalizing crew trace with
  | done result => exact ⟨[], not_mem_nil, hmain, hfresh⟩
  | await query resume ih =>
    obtain ⟨head, hhead, hreached, hnextFresh⟩ :=
      exists_schedule_resume hcalm htracked hmain (hfeasible query mem_cons_self)
    have hgood := @calm_runFrom _ _ _ _ rules ⟨crew, trace⟩ hcalm htracked _ hhead
    obtain ⟨tail, htail, hdone⟩ :=
      ih (rules.answer query) hgood.1 hgood.2 hnextFresh hreached
        fun other hmem => hfeasible other (mem_cons_of_mem query hmem)
    refine ⟨head ++ tail, notMem_append hhead htail, ?_⟩
    rw [Machine.runFrom_append]
    exact hdone

theorem exists_schedule_done {code : Coroutine Q R α}
    (hfeasible : ∀ query ∈ code.queries rules.answer, rules.Feasible query) :
    ∃ schedule, .cancelCaller ∉ schedule ∧ (rules.execute code schedule).state.main =
        .done (code.outcome rules.answer) := by
  have hgood := calm_start rules code
  obtain ⟨schedule, hschedule, hdone, _⟩ :=
    exists_schedule_bind hgood.1 hgood.2 rfl code.bind_done.symm hfeasible
  exact ⟨schedule, hschedule, hdone⟩

end Schedules

end PyFly.Library
