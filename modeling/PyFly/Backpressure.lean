import Mathlib.Algebra.BigOperators.Group.Finset.Basic
import Mathlib.Algebra.Order.Ring.Rat
import PyFly.Library.ScheduledMachine

/-!
# Backpressure strategies

The three `apply` methods.  The locks of the adaptive strategy are never held
across an await, so no task waits for one, and a task goes on without a pause
from the end of its processor to its own.
-/

namespace PyFly.Transactional

open Library

variable {I V E : Type}

structure BackpressureConfig where
  concurrency : ℕ
  batchSize : ℕ
  failureThreshold : ℕ
  waitDurationMs : ℤ

/-- What `processor(item)` does: it raises, or returns an awaitable which ends
with a value or an exception, after it has been suspended or not. -/
inductive Processing (V E : Type)
  | refused (error : E)
  | awaited (suspends : Bool) (outcome : Except E V)

namespace Processing

def outcome : Processing V E → Except E V
  | .refused error => .error error
  | .awaited _ outcome => outcome

def suspends : Processing V E → Bool
  | .refused _ => false
  | .awaited suspends _ => suspends

end Processing

/-- The processor, on the item at a position of the list. -/
abbrev Processor (I V E : Type) := ℕ × I → Processing V E

def enumerated (items : List I) : List (ℕ × I) := items.mapIdx Prod.mk

/-! ## AdaptiveBackpressureStrategy -/

/-- An `asyncio.Semaphore` while nobody is cancelled: the free permits, the
tasks which wait, those woken with a permit, and those inside. -/
structure TaskSemaphore where
  value : ℕ
  pending : List ℕ
  woken : List ℕ
  holders : List ℕ

namespace TaskSemaphore

def locked (semaphore : TaskSemaphore) : Bool :=
  semaphore.value == 0 || !semaphore.pending.isEmpty || !semaphore.woken.isEmpty

/-- `acquire` of a semaphore which is locked, and of one which is not. -/
def wait (semaphore : TaskSemaphore) (task : ℕ) : TaskSemaphore :=
  { semaphore with pending := semaphore.pending ++ [task] }

def take (semaphore : TaskSemaphore) (task : ℕ) : TaskSemaphore :=
  { semaphore with
    value := semaphore.value - 1
    holders := task :: semaphore.holders }

/-- Free permits are handed to whoever waits. -/
def wakeUp : ℕ → List ℕ → List ℕ → List ℕ → TaskSemaphore
  | value + 1, task :: pending, woken, holders =>
    wakeUp value pending (woken ++ [task]) holders
  | value, pending, woken, holders => ⟨value, pending, woken, holders⟩

/-- The rest of `acquire` in a task which has been woken. -/
def resume (semaphore : TaskSemaphore) (task : ℕ) : TaskSemaphore :=
  wakeUp semaphore.value semaphore.pending (semaphore.woken.erase task)
    (task :: semaphore.holders)

def release (semaphore : TaskSemaphore) (task : ℕ) : TaskSemaphore :=
  match semaphore.pending with
  | [] => { semaphore with
    value := semaphore.value + 1
    holders := semaphore.holders.erase task }
  | next :: rest => { semaphore with
    pending := rest
    woken := semaphore.woken ++ [next]
    holders := semaphore.holders.erase task }

end TaskSemaphore

/-- A call of the processor, with the processors which are in flight before it
and the value of `concurrency`. -/
structure Started (I : Type) where
  task : ℕ × I
  inFlight : ℕ
  concurrency : ℕ

/-- The semaphores are numbered as they are created, up to the `current` one;
`created` are the tasks which have not come to theirs. -/
structure AdaptiveRun (V E : Type) where
  concurrency : ℕ
  semaphores : ℕ → TaskSemaphore
  current : ℕ
  created : List ℕ
  results : List (Option (Except E V))
  errorCount : ℕ
  totalLatency : ℚ
  completed : ℕ

inductive AdaptivePick
  | arrive (index : ℕ)
  | resume (number index : ℕ)
  | finish (number index : ℕ)

namespace AdaptiveRun

def start (config : BackpressureConfig) (items : List I) : AdaptiveRun V E where
  concurrency := config.concurrency
  semaphores := fun _ => ⟨config.concurrency, [], [], []⟩
  current := 0
  created := List.range items.length
  results := items.map fun _ => none
  errorCount := 0
  totalLatency := 0
  completed := 0

/-- A sum over the semaphores. -/
def sum (weight : TaskSemaphore → ℕ) (run : AdaptiveRun V E) : ℕ :=
  ∑ number ∈ Finset.range (run.current + 1), weight (run.semaphores number)

def inFlight (run : AdaptiveRun V E) : ℕ :=
  run.sum fun semaphore => semaphore.holders.length

def setSemaphore (run : AdaptiveRun V E) (number : ℕ) (semaphore : TaskSemaphore) :
    AdaptiveRun V E :=
  { run with semaphores := Function.update run.semaphores number semaphore }

/-- A completion up to the adaptation. -/
def record (run : AdaptiveRun V E) (index : ℕ) (outcome : Except E V)
    (elapsed : ℚ) : AdaptiveRun V E :=
  { run with
    results := run.results.set index (some outcome)
    errorCount := run.errorCount + if outcome.isOk then 0 else 1
    totalLatency := run.totalLatency + elapsed
    completed := run.completed + 1 }

/-- What a completion makes of `concurrency`, with a new semaphore. -/
def adapted? (config : BackpressureConfig) (run : AdaptiveRun V E) : Option ℕ :=
  let avgLatency := run.totalLatency / run.completed
  if run.completed % max 1 (config.concurrency / 2) ≠ 0 then none
  else if 0 < run.errorCount ∨ 1 < avgLatency then
    some (max 1 (run.concurrency - 1))
  else if avgLatency < 1 / 10 ∧ run.errorCount = 0 then some (run.concurrency + 1)
  else none

def adapt (config : BackpressureConfig) (run : AdaptiveRun V E) : AdaptiveRun V E :=
  match run.adapted? config with
  | none => run
  | some concurrency =>
    { run.setSemaphore (run.current + 1) ⟨concurrency, [], [], []⟩ with
      concurrency := concurrency
      current := run.current + 1 }

/-- From the end of the processor to that of the task. -/
def complete (config : BackpressureConfig) (run : AdaptiveRun V E)
    (number index : ℕ) (outcome : Except E V) (elapsed : ℚ) : AdaptiveRun V E :=
  let adapted := (run.record index outcome elapsed).adapt config
  adapted.setSemaphore number ((adapted.semaphores number).release index)

/-- A task which has been let in calls the processor, which ends at once or is
suspended. -/
def enter (processor : Processor I V E) (items : List I)
    (run entered : AdaptiveRun V E) (number index : ℕ) :
    Option (AdaptiveRun V E × List (Started I) × Option (ℕ × ℕ × Except E V)) :=
  (enumerated items)[index]?.map fun task =>
    (entered, [⟨task, run.inFlight, run.concurrency⟩], if (processor task).suspends then none
      else some (number, index, (processor task).outcome))

/-- A task goes on, until its processor ends with some outcome, if it does. -/
def proceed (processor : Processor I V E) (items : List I) (run : AdaptiveRun V E) :
    AdaptivePick → Option (AdaptiveRun V E × List (Started I) × Option (ℕ × ℕ × Except E V))
  | .arrive index =>
    let arrived := { run with created := run.created.erase index }
    let semaphore := run.semaphores run.current
    if index ∉ run.created then none
    else if semaphore.locked then
      some (arrived.setSemaphore run.current (semaphore.wait index), [], none)
    else run.enter processor items
      (arrived.setSemaphore run.current (semaphore.take index)) run.current index
  | .resume number index =>
    let semaphore := run.semaphores number
    if number ≤ run.current ∧ index ∈ semaphore.woken then
      run.enter processor items (run.setSemaphore number (semaphore.resume index)) number index
    else none
  | .finish number index =>
    if number ≤ run.current ∧ index ∈ (run.semaphores number).holders then
      (enumerated items)[index]?.map fun task =>
        (run, [], some (number, index, (processor task).outcome))
    else none

/-- The second part of the choice is the time which the processor has taken, if
it ends. -/
def advance (config : BackpressureConfig) (processor : Processor I V E)
    (items : List I) (run : AdaptiveRun V E) (pick : AdaptivePick × ℚ) :
    Option (AdaptiveRun V E × List (Started I)) :=
  (run.proceed processor items pick.1).map fun reached =>
    (match reached.2.2 with
      | none => reached.1
      | some (number, index, outcome) =>
        reached.1.complete config number index outcome pick.2,
      reached.2.1)

/-- The tasks which have not ended. -/
def unfinished (run : AdaptiveRun V E) : ℕ :=
  run.created.length + run.sum fun semaphore =>
    semaphore.pending.length + semaphore.woken.length + semaphore.holders.length

/-- What `apply` returns once `gather` has seen all tasks end. -/
def returned? (run : AdaptiveRun V E) : Option (List (Option (Except E V))) :=
  if run.unfinished = 0 then some run.results else none

end AdaptiveRun

def adaptiveMachine (config : BackpressureConfig) (processor : Processor I V E)
    (items : List I) : Machine (AdaptiveRun V E) (AdaptivePick × ℚ) (Started I) where
  step := AdaptiveRun.advance config processor items

/-! ## BatchedBackpressureStrategy -/

/-- The awaitables of the batch in hand, each with whether it has ended, and
what `apply` has returned or raised. -/
structure BatchedRun (V E : Type) where
  next : ℕ
  results : List (Except E V)
  batch : List (Processing V E × Bool)
  reply : Option (Except E (List (Except E V)))

namespace BatchedRun

/-- The calls which the arguments of `gather` make, up to one which raises. -/
def callAll (processor : Processor I V E) :
    List (ℕ × I) → List (ℕ × I) × Except E (List (Processing V E))
  | [] => ([], .ok [])
  | task :: rest =>
    match processor task with
    | .refused error => ([task], .error error)
    | .awaited suspends outcome =>
      let later := callAll processor rest
      (task :: later.1, later.2.map (.awaited suspends outcome :: ·))

/-- The head of the loop over the batches. -/
def openBatch (config : BackpressureConfig) (processor : Processor I V E)
    (items : List I) (start : ℕ) (results : List (Except E V)) :
    BatchedRun V E × List (ℕ × I) :=
  if items.length ≤ start then (⟨start, results, [], some (.ok results)⟩, [])
  else
    let calls := callAll processor
      (((enumerated items).drop start).take config.batchSize)
    (match calls.2 with
      | .ok awaitables =>
        ⟨start + config.batchSize, results,
          awaitables.map fun awaitable => (awaitable, false), none⟩
      | .error error => ⟨start, results, [], some (.error error)⟩,
      calls.1)

/-- `some index`: an awaitable of the batch ends; `none`: `gather` returns. -/
def advance (config : BackpressureConfig) (processor : Processor I V E)
    (items : List I) (run : BatchedRun V E) :
    Option ℕ → Option (BatchedRun V E × List (ℕ × I))
  | some index =>
    match run.batch[index]? with
    | some (awaitable, false) =>
      some ({ run with batch := run.batch.set index (awaitable, true) }, [])
    | _ => none
  | none =>
    if run.reply.isNone ∧ run.batch.all Prod.snd then
      some (openBatch config processor items run.next
        (run.results ++ run.batch.map fun ended => ended.1.outcome))
    else none

end BatchedRun

def batchedMachine (config : BackpressureConfig) (processor : Processor I V E)
    (items : List I) :
    Machine (BatchedRun V E) (Option ℕ) (ℕ × I) where
  step := BatchedRun.advance config processor items

/-! ## CircuitBreakerBackpressureStrategy -/

/-- An entry of the returned list; `rejected` is the `RuntimeError`. -/
inductive BreakerEntry (V E : Type)
  | produced (outcome : Except E V)
  | rejected (message : String)

/-- The variables of the loop, and how often the clock has been looked at. -/
structure BreakerState where
  consecutiveFailures : ℕ
  circuitOpen : Bool
  circuitOpenedAt : Option ℚ
  instant : ℕ

/-- A turn of the loop: the state before it, the call of the processor and its
time, if there is one, the entry, and the state after it. -/
structure BreakerTurn (I V E : Type) where
  task : ℕ × I
  before : BreakerState
  calledAt : Option ℚ
  entry : BreakerEntry V E
  after : BreakerState

namespace BreakerState

def initial : BreakerState := ⟨0, false, none, 0⟩

/-- `circuit_opened_at is not None` and the wait is over. -/
def waited (config : BackpressureConfig) (clock : ℕ → ℚ) (state : BreakerState) :
    Bool :=
  match state.circuitOpenedAt with
  | none => false
  | some openedAt =>
    (config.waitDurationMs : ℚ) / 1000 ≤ clock state.instant - openedAt

/-- The loop body.  The clock has an instant for each of its readings, and for
each call of the processor. -/
def turn (config : BackpressureConfig) (clock : ℕ → ℚ)
    (processor : Processor I V E) (render : I → String) (task : ℕ × I)
    (state : BreakerState) : BreakerTurn I V E :=
  let outcome := (processor task).outcome
  if state.circuitOpen then
    if state.waited config clock then
      ⟨task, state, some (clock (state.instant + 1)), .produced outcome, match outcome with
        | .ok _ => ⟨0, false, none, state.instant + 2⟩
        | .error _ => { state with
          circuitOpenedAt := some (clock (state.instant + 2))
          instant := state.instant + 3 }⟩
    else
      ⟨task, state, none,
        .rejected ("Circuit breaker is open — skipping item: " ++ render task.2),
        { state with instant := state.instant + 1 }⟩
  else
    ⟨task, state, some (clock state.instant), .produced outcome, match outcome with
      | .ok _ => { state with consecutiveFailures := 0, instant := state.instant + 1 }
      | .error _ =>
        let failures := state.consecutiveFailures + 1
        if config.failureThreshold ≤ failures then
          ⟨failures, true, some (clock (state.instant + 1)), state.instant + 2⟩
        else { state with
          consecutiveFailures := failures, instant := state.instant + 1 }⟩

/-- The `for` loop. -/
def turns (config : BackpressureConfig) (clock : ℕ → ℚ)
    (processor : Processor I V E) (render : I → String) :
    List (ℕ × I) → BreakerState → List (BreakerTurn I V E)
  | [], _ => []
  | task :: rest, state =>
    let turn := state.turn config clock processor render task
    turn :: turns config clock processor render rest turn.after

end BreakerState

/-- The turns of `apply`, which returns their entries. -/
def breakerTurns (config : BackpressureConfig) (clock : ℕ → ℚ)
    (processor : Processor I V E) (render : I → String) (items : List I) :
    List (BreakerTurn I V E) :=
  BreakerState.initial.turns config clock processor render (enumerated items)

end PyFly.Transactional
