import PyFly.SchedulingLoops
import PyFly.Library.Histories

/-!
# Stopping a scheduler

The loops end before the tasks of the executor are gathered, so both gathers
wait for all jobs.  But to cancel a loop which awaits a job is to cancel it.
-/

namespace PyFly.Scheduling

open Library List

def GracefulAt (before : List Event) : Event → Prop
  | .cutShort _ => False
  | .started _ => .stopReturned ∉ before
  | .stopReturned => ∀ job, .started job ∈ before → ∃ outcome, .ended job outcome ∈ before
  | _ => True

def Graceful (execution : Execution Scheduler Event) : Prop :=
  AtEach GracefulAt execution.trace

/-- `stop()` is not called while a loop awaits a job whose body has started. -/
def StopsBetweenRuns (state : Scheduler) (pick : Pick) : Prop :=
  ∀ now, pick = .stop now → (schedulerMachine.step state pick).isSome = true →
      ∀ loop ∈ state.loops, ∀ index job, loop.phase = .awaiting index →
        state.jobs[index]? = some job → job.phase ≠ .running

def Accounted (trace : List Event) (jobs : List Job) (index : ℕ) : Prop :=
  ∃ job, jobs[index]? = some job ∧ (job.phase = .running ∨
      job.isDone = true ∧ ∃ outcome, .ended index outcome ∈ trace)

/-- What each stage of `stop()` has brought about. -/
structure Settling (execution : Execution Scheduler Event) : Prop where
  loopsEnded : execution.state.stopping ≠ .inactive →
    execution.state.stopping ≠ .gatheringLoops →
      ∀ loop ∈ execution.state.loops, loop.phase.isEnded = true
  gathered : ∀ tasks, execution.state.stopping = .gatheringTasks tasks →
    ∀ (index : ℕ) (job : Job), execution.state.jobs[index]? = some job →
      job.isDone = false → index ∈ tasks
  done : execution.state.stopping = .returned → ∀ job ∈ execution.state.jobs, job.isDone = true
  accounted : ∀ index, .started index ∈ execution.trace →
    Accounted execution.trace execution.state.jobs index
  returned : .stopReturned ∈ execution.trace → execution.state.stopping = .returned

variable {execution : Execution Scheduler Event} {pick : Pick}
  {state next : Scheduler} {events : List Event}

variable {index : ℕ} {job : Job}

theorem outcomeOf_isSome (hjob : state.jobs[index]? = some job) :
    (state.outcomeOf index).isSome = job.isDone := by
  obtain ⟨loop, submitted, started, ended, phase, cancelRequested⟩ := job
  cases phase <;> simp [Scheduler.outcomeOf, Job.isDone, hjob]

variable {trace : List Event} {jobs : List Job}

theorem Accounted.append (h : Accounted trace jobs index) (events : List Event) :
    Accounted (trace ++ events) jobs index := by
  obtain ⟨job, hjob, hrunning | ⟨hdone, outcome, hended⟩⟩ := h
  · exact ⟨job, hjob, .inl hrunning⟩
  · exact ⟨job, hjob, .inr ⟨hdone, outcome, mem_append_left _ hended⟩⟩

theorem Accounted.concat_job (h : Accounted trace jobs index) (job : Job) :
    Accounted trace (jobs ++ [job]) index := by
  obtain ⟨old, hold, haccounted⟩ := h
  refine ⟨old, ?_, haccounted⟩
  have hlt := (List.getElem?_eq_some_iff.mp hold).1
  rw [List.getElem?_append_left hlt]
  exact hold

theorem Accounted.set_ne {turned : ℕ} (h : Accounted trace jobs index)
    (hne : turned ≠ index) (job : Job) :
    Accounted trace (jobs.set turned job) index := by
  obtain ⟨old, hold, haccounted⟩ := h
  exact ⟨old, by rw [List.getElem?_set_ne hne]; exact hold, haccounted⟩

theorem settling_start (entries : List ScheduledEntry) (now : ℚ) :
    Settling ⟨start entries now, []⟩ := by
  constructor <;> simp [start]

/-! ## Turns of loops -/

theorem Settling.stopping_of_loop (h : Settling execution) {loop : Loop}
    (hloop : loop ∈ execution.state.loops)
    (hended : loop.phase.isEnded = false) :
    execution.state.stopping = .inactive ∨ execution.state.stopping = .gatheringLoops := by
  by_contra hneither
  rw [not_or] at hneither
  have hall := h.loopsEnded hneither.1 hneither.2 loop hloop
  simp [hended] at hall

theorem mem_endEvents {phase : LoopPhase} {event : Event}
    (h : event ∈ Scheduler.endEvents index phase) :
    ∃ how, event = .loopEnded index how := by
  unfold Scheduler.endEvents at h
  split at h <;> simp_all

variable {now : ℚ}

theorem Settling.loopTurn (h : Settling execution)
    (hturn : execution.state.loopTurn index now = some (next, events)) :
    Settling ⟨next, execution.trace ++ events⟩ := by
  obtain ⟨loop, phase, submits, hloop, -, hended, -, rfl, rfl⟩ :=
    Scheduler.loopTurn_cases hturn
  have hstopping := h.stopping_of_loop (mem_of_getElem? hloop) hended
  have hstarted : ∀ job, Event.started job ∈
      execution.trace ++ Scheduler.endEvents index phase →
        Event.started job ∈ execution.trace := by
    intro job hmem
    rcases mem_append.mp hmem with hmem | hmem
    · exact hmem
    · obtain ⟨how, hevent⟩ := mem_endEvents hmem
      cases hevent
  constructor
  · intro hne hne'
    rcases hstopping with hstopping | hstopping
    · exact absurd hstopping hne
    · exact absurd hstopping hne'
  · intro tasks htasks
    rcases hstopping with hstopping | hstopping <;> simp_all
  · intro hreturned
    rcases hstopping with hstopping | hstopping <;> simp_all
  · intro job hmem
    have haccounted := (h.accounted job (hstarted job hmem)).append
      (Scheduler.endEvents index phase)
    cases submits with
    | false => exact haccounted
    | true => exact haccounted.concat_job _
  · intro hmem
    rcases mem_append.mp hmem with hmem | hmem
    · exact h.returned hmem
    · obtain ⟨how, hevent⟩ := mem_endEvents hmem
      cases hevent

theorem Graceful.append_endEvents (h : Graceful execution) (index : ℕ)
    (phase : LoopPhase) : AtEach GracefulAt
      (execution.trace ++ Scheduler.endEvents index phase) := by
  apply AtEach.append h
  intro event hmem before
  obtain ⟨how, rfl⟩ := mem_endEvents hmem
  trivial

/-! ## Turns of jobs -/

/-- A job which takes a turn is not done, so `stop()` has not returned. -/
theorem Settling.not_returned (h : Settling execution)
    (hjob : execution.state.jobs[index]? = some job)
    (hdone : job.isDone = false) : .stopReturned ∉ execution.trace := by
  intro hmem
  have hall := h.done (h.returned hmem) job (mem_of_getElem? hjob)
  simp [hdone] at hall

variable {turned : Job} {isAsync : Bool} {outcome : Option Outcome}

theorem turnJob_isDone (h : Scheduler.turnJob job isAsync index outcome now =
      some (turned, events)) : job.isDone = false := by
  rcases Scheduler.turnJob_cases h with
    ⟨hphase, -⟩ | ⟨hphase, -⟩ | ⟨hphase, -⟩ | ⟨hphase, -⟩ | ⟨hphase, -⟩ <;>
    simp [Job.isDone, hphase]

theorem accounted_turnJob (hjob : jobs[index]? = some job)
    (hturn : Scheduler.turnJob job isAsync index outcome now = some (turned, events))
    (hbefore : .started index ∈ trace → Accounted trace jobs index)
    (hstarted : .started index ∈ trace ++ events) :
    Accounted (trace ++ events) (jobs.set index turned) index := by
  have hlt := (List.getElem?_eq_some_iff.mp hjob).1
  refine ⟨turned, by simp [hlt], ?_⟩
  have hpending : job.phase = .pending → Event.started index ∉ trace := by
    intro hphase hmem
    obtain ⟨old, hold, haccount⟩ := hbefore hmem
    rw [hjob] at hold
    cases hold
    simp [Job.isDone, hphase] at haccount
  rcases Scheduler.turnJob_cases hturn with
    ⟨hphase, -, -, rfl⟩ | ⟨-, -, result, rfl, rfl⟩ | ⟨-, -, rfl, rfl⟩ |
    ⟨-, result, rfl, rfl⟩ | ⟨hphase, rfl, rfl⟩
  · exact absurd (by simpa using hstarted) (hpending hphase)
  · exact .inr ⟨rfl, result, by simp⟩
  · exact .inl rfl
  · exact .inr ⟨rfl, result, by simp⟩
  · exact .inl hphase

theorem turnJob_events (h : Scheduler.turnJob job isAsync index outcome now =
      some (turned, events)) :
    ∀ event ∈ events, event = .started index ∨ ∃ outcome, event = .ended index outcome := by
  rcases Scheduler.turnJob_cases h with
    ⟨-, -, -, rfl⟩ | ⟨-, -, result, -, rfl⟩ | ⟨-, -, -, rfl⟩ |
    ⟨-, result, -, rfl⟩ | ⟨-, -, rfl⟩ <;> simp

theorem Settling.jobTurn (h : Settling execution)
    (hturn : execution.state.jobTurn index outcome now = some (next, events)) :
    Settling ⟨next, execution.trace ++ events⟩ := by
  obtain ⟨job, turned, hjob, hjobturn, rfl⟩ := Scheduler.jobTurn_cases hturn
  have hdone := turnJob_isDone hjobturn
  have hevents := turnJob_events hjobturn
  constructor
  · exact h.loopsEnded
  · intro tasks htasks other found hfound hundone
    by_cases hindex : index = other
    · subst hindex
      exact h.gathered tasks htasks index job hjob hdone
    · rw [List.getElem?_set_ne hindex] at hfound
      exact h.gathered tasks htasks other found hfound hundone
  · intro hreturned
    have hall := h.done hreturned job (mem_of_getElem? hjob)
    simp [hdone] at hall
  · intro other hmem
    by_cases hindex : index = other
    · subst hindex
      exact accounted_turnJob hjob hjobturn (h.accounted index) hmem
    · rcases mem_append.mp hmem with hold | hnew
      · exact ((h.accounted other hold).append events).set_ne hindex turned
      · rcases hevents _ hnew with hevent | ⟨result, hevent⟩
        · cases hevent
          exact absurd rfl hindex
        · cases hevent
  · intro hmem
    rcases mem_append.mp hmem with hold | hnew
    · exact h.returned hold
    · rcases hevents _ hnew with hevent | ⟨result, hevent⟩ <;> cases hevent

theorem Graceful.jobTurn (hgraceful : Graceful execution) (h : Settling execution)
    (hturn : execution.state.jobTurn index outcome now = some (next, events)) :
    AtEach GracefulAt (execution.trace ++ events) := by
  obtain ⟨job, turned, hjob, hjobturn, rfl⟩ := Scheduler.jobTurn_cases hturn
  have hreturned := h.not_returned hjob (turnJob_isDone hjobturn)
  have hstarted : AtEach GracefulAt (execution.trace ++ [.started index]) :=
    AtEach.concat hgraceful hreturned
  rcases Scheduler.turnJob_cases hjobturn with
    ⟨-, -, -, rfl⟩ | ⟨-, -, result, -, rfl⟩ | ⟨-, -, -, rfl⟩ |
    ⟨-, result, -, rfl⟩ | ⟨-, -, rfl⟩
  · rw [append_nil]
    exact hgraceful
  · rw [append_cons]
    exact hstarted.concat trivial
  · exact hstarted
  · exact AtEach.concat hgraceful trivial
  · rw [append_nil]
    exact hgraceful

/-! ## `stop()` -/

/-- `stop()` cuts those bodies short which have started and are awaited. -/
theorem mem_stopBegins {event : Event} (hstop : state.stopBegins now = some (next, events)) :
    event ∈ events ↔ ∃ index job, state.jobs[index]? = some job ∧
      state.cancelsJob index job = true ∧ job.phase = .running ∧ event = .cutShort index := by
  obtain ⟨-, -, -, -, -, rfl⟩ := Scheduler.stopBegins_cases hstop
  simp only [mem_filterMap, Prod.exists, Option.ite_none_right_eq_some,
    Option.some.injEq, mk_mem_zipIdx_iff_getElem?]
  constructor
  · rintro ⟨job, index, hjob, ⟨hcancels, hrunning⟩, rfl⟩
    exact ⟨index, job, hjob, hcancels, hrunning, rfl⟩
  · rintro ⟨index, job, hjob, hcancels, hrunning, rfl⟩
    exact ⟨job, index, hjob, ⟨hcancels, hrunning⟩, rfl⟩

theorem cancelsJob_running (hrunning : job.phase = .running) :
    state.cancelsJob index job = true ↔ ∃ loop ∈ state.loops, loop.phase = .awaiting index := by
  simp [Scheduler.cancelsJob, Job.isDone, hrunning]

theorem Settling.stopBegins (h : Settling execution)
    (hstop : execution.state.stopBegins now = some (next, events)) :
    Settling ⟨next, execution.trace ++ events⟩ := by
  obtain ⟨hinactive, -, hstopping, -, hjobs, -⟩ :=
    Scheduler.stopBegins_cases hstop
  have hcut : ∀ event : Event, (∀ job, event ≠ .cutShort job) →
      event ∈ execution.trace ++ events → event ∈ execution.trace := by
    intro event hevent hmem
    rcases mem_append.mp hmem with hmem | hmem
    · exact hmem
    · obtain ⟨index, -, -, -, -, heq⟩ := (mem_stopBegins hstop).mp hmem
      exact absurd heq (hevent index)
  constructor
  · exact fun _ hne => absurd hstopping hne
  · simp [hstopping]
  · simp [hstopping]
  · intro index hmem
    have hstarted := hcut _ (by simp) hmem
    obtain ⟨job, hjob, haccount⟩ := (h.accounted index hstarted).append events
    refine ⟨if execution.state.cancelsJob index job then
      { job with cancelRequested := true } else job, ?_, ?_⟩
    · simp [hjobs, hjob]
    · split <;> exact haccount
  · intro hmem
    have hreturned := h.returned (hcut _ (by simp) hmem)
    rw [hinactive] at hreturned
    cases hreturned

theorem graceful_stopBegins_iff (hgraceful : Graceful execution)
    (hstop : execution.state.stopBegins now = some (next, events)) :
    AtEach GracefulAt (execution.trace ++ events) ↔
      ∀ loop ∈ execution.state.loops, ∀ index job, loop.phase = .awaiting index →
          execution.state.jobs[index]? = some job → job.phase ≠ .running := by
  constructor
  · intro hall loop hloop index job hawaiting hjob hrunning
    have hcancels : execution.state.cancelsJob index job = true :=
      (cancelsJob_running hrunning).mpr ⟨loop, hloop, hawaiting⟩
    have hmem : Event.cutShort index ∈ events :=
      (mem_stopBegins hstop).mpr ⟨index, job, hjob, hcancels, hrunning, rfl⟩
    obtain ⟨front, back, hsplit⟩ :=
      append_of_mem (mem_append_right execution.trace hmem)
    exact hall front _ back hsplit
  · intro hbetween
    apply AtEach.append hgraceful
    intro event hmem
    obtain ⟨index, job, hjob, hcancels, hrunning, -⟩ :=
      (mem_stopBegins hstop).mp hmem
    obtain ⟨loop, hloop, hawaiting⟩ := (cancelsJob_running hrunning).mp hcancels
    exact absurd hrunning (hbetween loop hloop index job hawaiting hjob)

theorem Settling.stopResumes (h : Settling execution)
    (hstop : execution.state.stopResumes now = some (next, events)) :
    Settling ⟨next, execution.trace ++ events⟩ := by
  rcases Scheduler.stopResumes_cases hstop with
    ⟨hgathering, hended, rfl, rfl⟩ | ⟨tasks, hgathering, htasks, rfl, rfl⟩
  · refine ⟨fun _ _ => hended, ?_, by simp, ?_, ?_⟩
    · intro tasks htasks index job hjob hdone
      cases htasks
      have hlt : index < execution.state.jobs.length :=
        (List.getElem?_eq_some_iff.mp hjob).1
      have houtcome : (execution.state.outcomeOf index).isSome = job.isDone :=
        outcomeOf_isSome hjob
      simp [hlt, ← Option.not_isSome, houtcome, hdone]
    · simpa using h.accounted
    · intro hmem
      have hreturned := h.returned (by simpa using hmem)
      simp [hgathering] at hreturned
  · have hended := h.loopsEnded (by simp [hgathering]) (by simp [hgathering])
    refine ⟨fun _ _ => hended, by simp, ?_, ?_, by simp⟩
    · intro _ job hmem
      obtain ⟨index, hjob⟩ := List.getElem?_of_mem hmem
      by_contra hdone
      rw [Bool.not_eq_true] at hdone
      have houtcome :=
        htasks index (h.gathered tasks hgathering index job hjob hdone)
      have hsome : (execution.state.outcomeOf index).isSome = job.isDone :=
        outcomeOf_isSome hjob
      rw [hsome, hdone] at houtcome
      cases houtcome
    · intro index hmem
      exact (h.accounted index (by simpa using hmem)).append _

theorem Graceful.stopResumes (hgraceful : Graceful execution) (h : Settling execution)
    (hstop : execution.state.stopResumes now = some (next, events)) :
    AtEach GracefulAt (execution.trace ++ events) := by
  rcases Scheduler.stopResumes_cases hstop with
    ⟨-, -, -, rfl⟩ | ⟨tasks, hgathering, htasks, -, rfl⟩
  · rw [append_nil]
    exact hgraceful
  · refine AtEach.concat hgraceful ?_
    intro index hstarted
    obtain ⟨job, hjob, hrunning | ⟨-, hended⟩⟩ := h.accounted index hstarted
    · have hdone : job.isDone = false := by simp [Job.isDone, hrunning]
      have houtcome :=
        htasks index (h.gathered tasks hgathering index job hjob hdone)
      rw [outcomeOf_isSome hjob, hdone] at houtcome
      cases houtcome
    · exact hended

/-! ## Runs -/

theorem Settling.step (h : Settling execution)
    (hstep : schedulerMachine.step execution.state pick = some (next, events)) :
    Settling ⟨next, execution.trace ++ events⟩ := by
  have hcases := (schedulerMachine_step hstep).2
  cases pick with
  | loop index now => exact h.loopTurn hcases
  | job index outcome now => exact h.jobTurn hcases
  | stop now => exact h.stopBegins hcases
  | stopResumes now => exact h.stopResumes hcases

theorem stopsBetweenRuns_of_disabled (hstep : schedulerMachine.step state pick = none) :
    StopsBetweenRuns state pick := by
  intro now _ henabled
  simp [hstep] at henabled

theorem graceful_step_iff (h : Settling execution) (hgraceful : Graceful execution)
    (hstep : schedulerMachine.step execution.state pick = some (next, events)) :
    Graceful ⟨next, execution.trace ++ events⟩ ↔ StopsBetweenRuns execution.state pick := by
  have hcases := (schedulerMachine_step hstep).2
  have hother : (∀ now, pick ≠ .stop now) → StopsBetweenRuns execution.state pick :=
    fun hne now hpick => absurd hpick (hne now)
  cases pick with
  | loop index now =>
    refine iff_of_true ?_ (hother (by simp))
    obtain ⟨loop, phase, submits, -, -, -, -, -, rfl⟩ :=
      Scheduler.loopTurn_cases hcases
    exact hgraceful.append_endEvents index phase
  | job index outcome now =>
    exact iff_of_true (hgraceful.jobTurn h hcases) (hother (by simp))
  | stop now =>
    refine (graceful_stopBegins_iff hgraceful hcases).trans ?_
    constructor
    · exact fun hall _ _ _ => hall
    · exact fun hstops => hstops now rfl (by simp [hstep])
  | stopResumes now =>
    exact iff_of_true (hgraceful.stopResumes h hcases) (hother (by simp))

/-- In every run bodies end before `stop()` returns, and none starts after it,
exactly when `stop()` is not called while a loop awaits a body which has
started. -/
theorem graceful_iff_stopsBetweenRuns (entries : List ScheduledEntry) (now : ℚ)
    (schedule : List Pick) :
    (∀ front, front <+: schedule → Graceful (schedulerMachine.run (start entries now) front)) ↔
      schedulerMachine.Meets StopsBetweenRuns ⟨start entries now, []⟩
        schedule :=
  Machine.forall_prefix_iff_meets Settling Graceful
    (fun _ _ _ _ h hstep => h.step hstep)
    (fun _ _ _ _ => graceful_step_iff)
    (fun _ _ => stopsBetweenRuns_of_disabled)
    (settling_start entries now) AtEach.nil schedule

/-- `stop()` cancels the first run of a job with a fixed delay. -/
theorem not_graceful_awaited : ¬ ∀ front, front <+: [.loop 0 0, .job 0 none 0, .stop 0] →
      Graceful (schedulerMachine.run
        (start [{ fixedDelay := some 1, isAsync := true }] 0) front) := by
  intro hall
  have htrace : (schedulerMachine.run (start [{ fixedDelay := some 1, isAsync := true }] 0)
      [.loop 0 0, .job 0 none 0, .stop 0]).trace = [.started 0] ++ .cutShort 0 :: [] := by
    decide
  exact hall _ (prefix_refl _) _ _ _ htrace

end PyFly.Scheduling
