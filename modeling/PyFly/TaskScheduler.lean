import Mathlib.Algebra.Order.Field.Rat
import PyFly.Library.ScheduledMachine

/-!
# The task scheduler

Each entry has a loop, which is a task of the event loop and submits runs of
its method.  Both executors make a task of a submitted run and return at once,
and on `stop()` they wait for the tasks which are not done.
-/

namespace PyFly.Scheduling

open Library

/-! ## Entries -/

/-- A cron expression: whether it is valid, and the delay to its next time,
unless `croniter` finds none. -/
structure Cron where
  valid : Bool
  secondsUntilNext : ℚ → Option ℚ

/-- A scheduled method with its metadata, in seconds; `isAsync` if it returns
an awaitable. -/
structure ScheduledEntry where
  cron : Option Cron := none
  fixedRate : Option ℚ := none
  fixedDelay : Option ℚ := none
  initialDelay : Option ℚ := none
  isAsync : Bool

inductive Trigger
  | cron (cron : Cron)
  | fixedRate (rate : ℚ)
  | fixedDelay (delay : ℚ)

def ScheduledEntry.trigger (entry : ScheduledEntry) : Option Trigger :=
  match entry.cron, entry.fixedRate, entry.fixedDelay with
  | some cron, _, _ => some (.cron cron)
  | none, some rate, _ => some (.fixedRate rate)
  | none, none, some delay => some (.fixedDelay delay)
  | none, none, none => none

/-! ## Tasks -/

inductive Outcome
  | returned
  | raised
  | cancelled
  deriving DecidableEq

inductive JobPhase
  | pending
  | running
  | done (outcome : Outcome)
  deriving DecidableEq

structure Job where
  loop : ℕ
  submitted : ℚ
  started : Option ℚ := none
  ended : Option ℚ := none
  phase : JobPhase := .pending
  cancelRequested : Bool := false
  deriving DecidableEq

def Job.isDone (job : Job) : Bool :=
  match job.phase with
  | .done _ => true
  | _ => false

inductive LoopEnd
  | finished
  | failed
  | cancelled
  deriving DecidableEq

inductive LoopPhase
  | created
  | sleeping (wake : ℚ)
  | awaiting (job : ℕ)
  | ended (how : LoopEnd)
  deriving DecidableEq

structure Loop where
  trigger : Trigger
  initialDelay : Option ℚ := none
  isAsync : Bool
  phase : LoopPhase := .created
  cancelRequested : Bool := false

def LoopPhase.isEnded : LoopPhase → Bool
  | .ended _ => true
  | _ => false

@[simp] theorem LoopPhase.isEnded_created :
    LoopPhase.created.isEnded = false := rfl

@[simp] theorem LoopPhase.isEnded_sleeping (wake : ℚ) :
    (LoopPhase.sleeping wake).isEnded = false := rfl

@[simp] theorem LoopPhase.isEnded_awaiting (job : ℕ) :
    (LoopPhase.awaiting job).isEnded = false := rfl

@[simp] theorem LoopPhase.isEnded_ended (how : LoopEnd) :
    (LoopPhase.ended how).isEnded = true := rfl

/-! ## Loops -/

/-- The time at which `asyncio.sleep` wakes up. -/
def wakeAfter (now delay : ℚ) : ℚ := now + max delay 0

def cronSleep (cron : Cron) (now : ℚ) : LoopPhase :=
  match cron.secondsUntilNext now with
  | some delay => .sleeping (wakeAfter now delay)
  | none => .ended .failed

def Trigger.afterSubmit (trigger : Trigger) (now : ℚ) (job : ℕ) : LoopPhase :=
  match trigger with
  | .cron expr => cronSleep expr now
  | .fixedRate rate => .sleeping (wakeAfter now rate)
  | .fixedDelay _ => .awaiting job

/-- A turn of `while self._running` up to the next suspension: the new phase,
and whether a job is submitted. -/
def Loop.whileRunning (loop : Loop) (running : Bool) (now : ℚ) (job : ℕ) : LoopPhase × Bool :=
  if running then (loop.trigger.afterSubmit now job, true)
  else (.ended .finished, false)

def Loop.begin (loop : Loop) (running : Bool) (now : ℚ) (job : ℕ) : LoopPhase × Bool :=
  match loop.trigger with
  | .cron cron =>
    if cron.valid then
      (if running then cronSleep cron now else .ended .finished, false)
    else (.ended .failed, false)
  | _ =>
    match loop.initialDelay with
    | some delay =>
      if delay = 0 then loop.whileRunning running now job
      else (.sleeping (wakeAfter now delay), false)
    | none => loop.whileRunning running now job

def Loop.resume (loop : Loop) (running : Bool) (now : ℚ) : Outcome → LoopPhase
  | .returned =>
    match loop.trigger with
    | .fixedDelay delay =>
      if running then .sleeping (wakeAfter now delay) else .ended .finished
    | _ => .ended .finished
  | .raised => .ended .failed
  | .cancelled => .ended .cancelled

def Loop.turn (loop : Loop) (running : Bool) (outcome : ℕ → Option Outcome)
    (now : ℚ) (job : ℕ) : Option (LoopPhase × Bool) :=
  match loop.phase with
  | .created => some (loop.begin running now job)
  | .sleeping wake =>
    if now < wake then none else some (loop.whileRunning running now job)
  | .awaiting awaited =>
    (outcome awaited).map fun outcome =>
      (loop.resume running now outcome, false)
  | .ended _ => none

/-! ## The scheduler -/

/-- Where `stop()` is: it gathers the loops, then those tasks of the executor
which are not done. -/
inductive StopPhase
  | inactive
  | gatheringLoops
  | gatheringTasks (tasks : List ℕ)
  | returned
  deriving DecidableEq

structure Scheduler where
  running : Bool := true
  loops : List Loop
  jobs : List Job := []
  stopping : StopPhase := .inactive
  now : ℚ

def start (entries : List ScheduledEntry) (now : ℚ) : Scheduler where
  loops := entries.filterMap fun entry => entry.trigger.map fun trigger =>
    { trigger := trigger
      initialDelay := entry.initialDelay
      isAsync := entry.isAsync }
  now := now

/-- The scheduling choices, each with a reading of the clock: a turn of a loop,
a turn of a job, which may end with it, and `stop()` with its resumptions. -/
inductive Pick
  | loop (index : ℕ) (now : ℚ)
  | job (index : ℕ) (outcome : Option Outcome) (now : ℚ)
  | stop (now : ℚ)
  | stopResumes (now : ℚ)

def Pick.time : Pick → ℚ
  | .loop _ now | .job _ _ now | .stop now | .stopResumes now => now

inductive Event
  | started (job : ℕ)
  | ended (job : ℕ) (outcome : Outcome)
  | cutShort (job : ℕ)
  | loopEnded (loop : ℕ) (how : LoopEnd)
  | stopReturned
  deriving DecidableEq

namespace Scheduler

variable (state : Scheduler)

def outcomeOf (job : ℕ) : Option Outcome :=
  match state.jobs[job]? with
  | some { phase := .done outcome, .. } => some outcome
  | _ => none

def hasPending (loop : ℕ) : Bool :=
  state.jobs.any fun job => job.loop = loop ∧ job.phase = .pending

def setPhase (index : ℕ) (loop : Loop) (phase : LoopPhase) : List Loop :=
  state.loops.set index { loop with phase := phase, cancelRequested := false }

def endEvents (index : ℕ) : LoopPhase → List Event
  | .ended how => [.loopEnded index how]
  | _ => []

def loopTurn (index : ℕ) (now : ℚ) : Option (Scheduler × List Event) :=
  match state.loops[index]? with
  | none => none
  | some loop =>
    if state.hasPending index ∨ loop.phase.isEnded then none
    else if loop.cancelRequested then
      some ({ state with
          loops := state.setPhase index loop (.ended .cancelled)
          now := now }, [.loopEnded index .cancelled])
    else
      match loop.turn state.running state.outcomeOf now
        state.jobs.length with
      | none => none
      | some (phase, submits) =>
        some ({ state with
            loops := state.setPhase index loop phase
            jobs :=
              if submits then
                state.jobs ++ [{ loop := index, submitted := now }]
              else state.jobs
            now := now }, endEvents index phase)

/-- What a turn makes of a job, where `isAsync` tells whether its body can be
suspended. -/
def turnJob (job : Job) (isAsync : Bool) (index : ℕ)
    (outcome : Option Outcome) (now : ℚ) : Option (Job × List Event) :=
  match job.phase, outcome with
  | .done _, _ => none
  | .pending, outcome =>
    if job.cancelRequested then
      -- the coroutine is closed before its body has begun
      some ({ job with phase := .done .cancelled }, [])
    else
      match outcome with
      | some outcome =>
        some ({ job with
            started := some now
            ended := some now
            phase := .done outcome },
          [.started index, .ended index outcome])
      | none =>
        if isAsync then
          some ({ job with started := some now, phase := .running },
            [.started index])
        else none
  | .running, some outcome =>
    some ({ job with ended := some now, phase := .done outcome },
      [.ended index outcome])
  | .running, none => some (job, [])

def jobTurn (index : ℕ) (outcome : Option Outcome) (now : ℚ) :
    Option (Scheduler × List Event) :=
  match state.jobs[index]? with
  | none => none
  | some job =>
    match turnJob job
      ((state.loops[job.loop]?.map Loop.isAsync).getD true) index outcome
      now with
    | none => none
    | some (next, events) =>
      some ({ state with
          jobs := state.jobs.set index next
          now := now }, events)

def cancelsJob (index : ℕ) (job : Job) : Bool :=
  !job.isDone && state.loops.any fun loop => loop.phase = .awaiting index

def cancelLoop (loop : Loop) : Loop :=
  match loop.phase with
  | .ended _ => loop
  | .awaiting job =>
    if (state.outcomeOf job).isSome then { loop with cancelRequested := true }
    else loop
  | _ => { loop with cancelRequested := true }

/-- `stop()` up to its first suspension. -/
def stopBegins (now : ℚ) : Option (Scheduler × List Event) :=
  match state.stopping with
  | .inactive =>
    some ({ state with
        running := false
        loops := state.loops.map state.cancelLoop
        jobs := state.jobs.mapIdx fun index job =>
          if state.cancelsJob index job then
            { job with cancelRequested := true }
          else job
        stopping := .gatheringLoops
        now := now },
      state.jobs.zipIdx.filterMap fun (job, index) =>
        if state.cancelsJob index job ∧ job.phase = .running then
          some (.cutShort index)
        else none)
  | _ => none

def stopResumes (now : ℚ) : Option (Scheduler × List Event) :=
  match state.stopping with
  | .gatheringLoops =>
    if state.loops.all fun loop => loop.phase.isEnded then
      some ({ state with
          stopping := .gatheringTasks ((List.range state.jobs.length).filter
            fun index => (state.outcomeOf index).isNone)
          now := now }, [])
    else none
  | .gatheringTasks tasks =>
    if tasks.all fun index => (state.outcomeOf index).isSome then
      some ({ state with stopping := .returned, now := now },
        [.stopReturned])
    else none
  | _ => none

end Scheduler

/-- Loops, jobs and `stop()` take turns in any order; the clock does not go
back. -/
def schedulerMachine : Machine Scheduler Pick Event where
  step state pick :=
    if pick.time < state.now then none
    else
      match pick with
      | .loop index now => state.loopTurn index now
      | .job index outcome now => state.jobTurn index outcome now
      | .stop now => state.stopBegins now
      | .stopResumes now => state.stopResumes now

/-! ## What a step does -/

variable {state next : Scheduler} {events : List Event} {pick : Pick}

variable {index : ℕ} {now : ℚ}

theorem Scheduler.loopTurn_cases (h : state.loopTurn index now = some (next, events)) :
    ∃ loop phase submits, state.loops[index]? = some loop ∧
      state.hasPending index = false ∧ loop.phase.isEnded = false ∧
      ((loop.cancelRequested = true ∧ phase = .ended .cancelled ∧ submits = false) ∨
        (loop.cancelRequested = false ∧
          loop.turn state.running state.outcomeOf now state.jobs.length =
            some (phase, submits))) ∧
      next = { state with
        loops := state.setPhase index loop phase
        jobs :=
          if submits then state.jobs ++ [{ loop := index, submitted := now }]
          else state.jobs
        now := now } ∧
      events = Scheduler.endEvents index phase := by
  unfold Scheduler.loopTurn at h
  cases hloop : state.loops[index]? with
  | none => simp [hloop] at h
  | some loop =>
    simp only [hloop] at h
    by_cases hready : state.hasPending index = true ∨ loop.phase.isEnded = true
    · simp [hready] at h
    · rw [if_neg hready] at h
      simp only [not_or, Bool.not_eq_true] at hready
      cases hcancel : loop.cancelRequested with
      | true =>
        simp only [hcancel, if_true, Option.some.injEq, Prod.mk.injEq] at h
        exact ⟨loop, .ended .cancelled, false, rfl, hready.1, hready.2,
          .inl ⟨hcancel, rfl, rfl⟩, h.1.symm, h.2.symm⟩
      | false =>
        simp only [hcancel, Bool.false_eq_true, if_false] at h
        cases hturn : loop.turn state.running state.outcomeOf now state.jobs.length with
        | none => simp [hturn] at h
        | some turned =>
          simp only [hturn, Option.some.injEq, Prod.mk.injEq] at h
          exact ⟨loop, turned.1, turned.2, rfl, hready.1, hready.2,
            .inr ⟨hcancel, hturn⟩, h.1.symm, h.2.symm⟩

theorem Scheduler.jobTurn_cases {outcome : Option Outcome}
    (h : state.jobTurn index outcome now = some (next, events)) :
    ∃ job turned, state.jobs[index]? = some job ∧ Scheduler.turnJob job
          ((state.loops[job.loop]?.map Loop.isAsync).getD true) index outcome
          now = some (turned, events) ∧
      next = { state with jobs := state.jobs.set index turned, now := now } := by
  unfold Scheduler.jobTurn at h
  cases hjob : state.jobs[index]? with
  | none => simp [hjob] at h
  | some job =>
    simp only [hjob] at h
    cases hturn : Scheduler.turnJob job
        ((state.loops[job.loop]?.map Loop.isAsync).getD true) index outcome
        now with
    | none => simp [hturn] at h
    | some result =>
      simp only [hturn, Option.some.injEq, Prod.mk.injEq] at h
      exact ⟨job, result.1, rfl, by rw [← h.2]; exact hturn, h.1.symm⟩

theorem Scheduler.turnJob_cases {job turned : Job} {isAsync : Bool} {outcome : Option Outcome}
    (h : Scheduler.turnJob job isAsync index outcome now = some (turned, events)) :
    (job.phase = .pending ∧ job.cancelRequested = true ∧
      turned = { job with phase := .done .cancelled } ∧ events = []) ∨
    (job.phase = .pending ∧ job.cancelRequested = false ∧ ∃ result, turned = { job with
          started := some now, ended := some now, phase := .done result } ∧
        events = [.started index, .ended index result]) ∨
    (job.phase = .pending ∧ job.cancelRequested = false ∧
      turned = { job with started := some now, phase := .running } ∧
      events = [.started index]) ∨
    (job.phase = .running ∧ ∃ result,
      turned = { job with ended := some now, phase := .done result } ∧
        events = [.ended index result]) ∨
    (job.phase = .running ∧ turned = job ∧ events = []) := by
  unfold Scheduler.turnJob at h
  cases hphase : job.phase with
  | done result => simp [hphase] at h
  | running =>
    cases outcome with
    | none =>
      simp only [hphase, Option.some.injEq, Prod.mk.injEq] at h
      exact .inr (.inr (.inr (.inr ⟨rfl, h.1.symm, h.2.symm⟩)))
    | some result =>
      simp only [hphase, Option.some.injEq, Prod.mk.injEq] at h
      exact .inr (.inr (.inr (.inl ⟨rfl, result, h.1.symm, h.2.symm⟩)))
  | pending =>
    cases hcancel : job.cancelRequested with
    | true =>
      simp only [hphase, hcancel, if_true, Option.some.injEq, Prod.mk.injEq] at h
      exact .inl ⟨rfl, rfl, h.1.symm, h.2.symm⟩
    | false =>
      simp only [hphase, hcancel, Bool.false_eq_true, if_false] at h
      cases outcome with
      | some result =>
        simp only [Option.some.injEq, Prod.mk.injEq] at h
        exact .inr (.inl ⟨rfl, rfl, result, h.1.symm, h.2.symm⟩)
      | none =>
        cases isAsync with
        | false => simp at h
        | true =>
          simp only [if_true, Option.some.injEq, Prod.mk.injEq] at h
          exact .inr (.inr (.inl ⟨rfl, rfl, h.1.symm, h.2.symm⟩))

theorem schedulerMachine_step (h : schedulerMachine.step state pick = some (next, events)) :
    state.now ≤ pick.time ∧ match pick with
      | .loop index now => state.loopTurn index now = some (next, events)
      | .job index outcome now =>
        state.jobTurn index outcome now = some (next, events)
      | .stop now => state.stopBegins now = some (next, events)
      | .stopResumes now => state.stopResumes now = some (next, events) := by
  unfold schedulerMachine at h
  dsimp only at h
  split at h
  · cases h
  · rename_i htime
    refine ⟨not_lt.mp htime, ?_⟩
    cases pick <;> exact h

theorem Scheduler.stopBegins_cases (h : state.stopBegins now = some (next, events)) :
    state.stopping = .inactive ∧ next.running = false ∧ next.stopping = .gatheringLoops ∧
      next.loops = state.loops.map state.cancelLoop ∧
      next.jobs = state.jobs.mapIdx (fun index job =>
        if state.cancelsJob index job then { job with cancelRequested := true }
        else job) ∧
      events = state.jobs.zipIdx.filterMap fun (job, index) =>
        if state.cancelsJob index job ∧ job.phase = .running then
          some (.cutShort index)
        else none := by
  unfold Scheduler.stopBegins at h
  cases hstopping : state.stopping with
  | inactive =>
    simp only [hstopping, Option.some.injEq, Prod.mk.injEq] at h
    obtain ⟨rfl, rfl⟩ := h
    exact ⟨rfl, rfl, rfl, rfl, rfl, rfl⟩
  | gatheringLoops => simp [hstopping] at h
  | gatheringTasks tasks => simp [hstopping] at h
  | returned => simp [hstopping] at h

theorem Scheduler.stopBegins_now
    (h : state.stopBegins now = some (next, events)) : next.now = now := by
  unfold Scheduler.stopBegins at h
  split at h
  · simp only [Option.some.injEq, Prod.mk.injEq] at h
    rw [← h.1]
  · cases h

theorem Scheduler.stopResumes_cases (h : state.stopResumes now = some (next, events)) :
    (state.stopping = .gatheringLoops ∧ (∀ loop ∈ state.loops, loop.phase.isEnded = true) ∧
      next = { state with
        stopping := .gatheringTasks ((List.range state.jobs.length).filter
          fun index => (state.outcomeOf index).isNone)
        now := now } ∧ events = []) ∨
    (∃ tasks, state.stopping = .gatheringTasks tasks ∧
      (∀ index ∈ tasks, (state.outcomeOf index).isSome = true) ∧
      next = { state with stopping := .returned, now := now } ∧
      events = [.stopReturned]) := by
  unfold Scheduler.stopResumes at h
  cases hstopping : state.stopping with
  | inactive => simp [hstopping] at h
  | returned => simp [hstopping] at h
  | gatheringLoops =>
    simp only [hstopping] at h
    split at h
    · rename_i hall
      simp only [Option.some.injEq, Prod.mk.injEq] at h
      exact .inl ⟨rfl, by simpa using hall, h.1.symm, h.2.symm⟩
    · cases h
  | gatheringTasks tasks =>
    simp only [hstopping] at h
    split at h
    · rename_i hall
      simp only [Option.some.injEq, Prod.mk.injEq] at h
      exact .inr ⟨tasks, rfl, by simpa using hall, h.1.symm, h.2.symm⟩
    · cases h

@[simp] theorem Scheduler.cancelLoop_phase (state : Scheduler)
    (loop : Loop) : (state.cancelLoop loop).phase = loop.phase := by
  unfold Scheduler.cancelLoop
  split
  · rfl
  · split <;> rfl
  · rfl

@[simp] theorem Scheduler.cancelLoop_trigger (state : Scheduler)
    (loop : Loop) : (state.cancelLoop loop).trigger = loop.trigger := by
  unfold Scheduler.cancelLoop
  split
  · rfl
  · split <;> rfl
  · rfl

theorem Scheduler.mem_setPhase {loop other : Loop} {phase : LoopPhase}
    (h : other ∈ state.setPhase index loop phase) :
    other ∈ state.loops ∨ other = { loop with phase := phase, cancelRequested := false } :=
  List.mem_or_eq_of_mem_set h

theorem Scheduler.mem_setPhase_self {loop : Loop}
    (hloop : state.loops[index]? = some loop) (phase : LoopPhase) :
    { loop with phase := phase, cancelRequested := false } ∈
      state.setPhase index loop phase := by
  have hlt := (List.getElem?_eq_some_iff.mp hloop).1
  exact List.mem_set hlt _

end PyFly.Scheduling
