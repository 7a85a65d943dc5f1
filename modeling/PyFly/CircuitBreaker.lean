import Mathlib.Algebra.Order.Field.Rat
import PyFly.Library.Histories
import PyFly.Library.ScheduledMachine

/-!
# The circuit breaker

Calls overlap at the `await` of their function.  Half-open is read off the
clock and never stored: a call which starts when the timeout has passed is
admitted even while another one probes the circuit.
-/

namespace PyFly.Client

open Library List

/-! ## The breaker -/

inductive CircuitState
  | closed
  | opened
  | halfOpen
  deriving DecidableEq, Repr

structure BreakerConfig where
  failureThreshold : ℤ
  recoveryTimeout : ℚ

structure Breaker where
  failureCount : ℤ := 0
  lastFailureTime : Option ℚ := none
  state : CircuitState := .closed
  deriving DecidableEq, Repr

namespace Breaker

variable (config : BreakerConfig)

/-- The property `state`. -/
def stateAt (now : ℚ) (breaker : Breaker) : CircuitState :=
  match breaker.state, breaker.lastFailureTime with
  | .opened, some last =>
    if config.recoveryTimeout ≤ now - last then .halfOpen else .opened
  | state, _ => state

def onSuccess : Breaker where

def onFailure (now : ℚ) (breaker : Breaker) : Breaker :=
  if breaker.state = .halfOpen then
    { failureCount := config.failureThreshold
      lastFailureTime := some now
      state := .opened }
  else
    { failureCount := breaker.failureCount + 1
      lastFailureTime := some now
      state :=
        if config.failureThreshold ≤ breaker.failureCount + 1 then .opened
        else breaker.state }

end Breaker

/-! ## Calls -/

/-- How the function of a call ends; a `CircuitBreakerException` of its own and
a cancellation are not recorded. -/
inductive CallEnd
  | returned
  | raised
  | unrecorded
  deriving DecidableEq, Repr

/-- The scheduling choices, each with a reading of the clock. -/
inductive BreakerPick (ι : Type)
  | start (call : ι) (now : ℚ)
  | finish (call : ι) (result : CallEnd) (now : ℚ)
  deriving DecidableEq, Repr

inductive BreakerEvent (ι : Type)
  | admitted (call : ι) (now : ℚ)
  | rejected (call : ι) (now : ℚ)
  | succeeded (call : ι) (now : ℚ)
  | failed (call : ι) (now : ℚ)
  | ended (call : ι) (now : ℚ)
  deriving DecidableEq, Repr

/-- The breaker, the last reading of the clock, and the calls whose function
runs: whether they were admitted half-open. -/
structure BreakerRun (ι : Type) where
  breaker : Breaker := {}
  clock : ℚ
  inFlight : List (ι × Bool) := []

variable {ι : Type} (config : BreakerConfig)

/-- A call up to its `await`. -/
def startCall (call : ι) (now : ℚ) (run : BreakerRun ι) :
    BreakerRun ι × List (BreakerEvent ι) :=
  match run.breaker.stateAt config now with
  | .opened => ({ run with clock := now }, [.rejected call now])
  | current =>
    ({ run with
        clock := now
        inFlight := (call, decide (current = .halfOpen)) :: run.inFlight },
      [.admitted call now])

/-- A call after its `await`. -/
def finishCall [DecidableEq ι] (call : ι) (result : CallEnd) (now : ℚ)
    (run : BreakerRun ι) : BreakerRun ι × List (BreakerEvent ι) :=
  let inFlight := run.inFlight.filter fun other => other.1 ≠ call
  match result with
  | .returned =>
    (⟨Breaker.onSuccess, now, inFlight⟩, [.succeeded call now])
  | .raised =>
    (⟨run.breaker.onFailure config now, now, inFlight⟩, [.failed call now])
  | .unrecorded => (⟨run.breaker, now, inFlight⟩, [.ended call now])

def breakerMachine [DecidableEq ι] :
    Machine (BreakerRun ι) (BreakerPick ι) (BreakerEvent ι) where
  step run
    | .start call now =>
      if now < run.clock ∨ call ∈ run.inFlight.map Prod.fst then none
      else some (startCall config call now run)
    | .finish call result now =>
      if now < run.clock ∨ call ∉ run.inFlight.map Prod.fst then none
      else some (finishCall config call result now run)

/-! ## What the history says -/

def consecutiveFailures (history : List (BreakerEvent ι)) : ℕ :=
  history.foldl (fun count event =>
    match event with
    | .failed _ _ => count + 1
    | .succeeded _ _ => 0
    | _ => count) 0

def lastFailure (history : List (BreakerEvent ι)) : Option ℚ :=
  history.foldl (fun last event =>
    match event with
    | .failed _ now => some now
    | _ => last) none

def Opened (history : List (BreakerEvent ι)) : Prop :=
  0 < consecutiveFailures history ∧ config.failureThreshold ≤ consecutiveFailures history

def Waited (before : List (BreakerEvent ι)) (event : BreakerEvent ι) : Prop :=
  ∀ call now, event = .admitted call now → Opened config before →
    ∀ last, lastFailure before = some last → config.recoveryTimeout ≤ now - last

def BreakerRun.probes (run : BreakerRun ι) : List (ι × Bool) :=
  run.inFlight.filter fun call => call.2

/-- No call is admitted too early, there is one probe at most, and the circuit
is open exactly when it should be. -/
structure Protects (execution : Execution (BreakerRun ι) (BreakerEvent ι)) :
    Prop where
  waits : AtEach (Waited config) execution.trace
  probes : execution.state.probes.length ≤ 1
  opens : execution.state.breaker.state = .opened ↔ Opened config execution.trace

def ProbesAlone (run : BreakerRun ι) (pick : BreakerPick ι) : Prop :=
  ∀ call now, pick = .start call now → run.clock ≤ now → call ∉ run.inFlight.map Prod.fst →
      run.breaker.stateAt config now = .halfOpen → run.probes = []

/-! ## The breaker agrees with the history -/

structure Agrees (execution : Execution (BreakerRun ι) (BreakerEvent ι)) :
    Prop where
  count : execution.state.breaker.failureCount = consecutiveFailures execution.trace
  last : 0 < consecutiveFailures execution.trace →
    execution.state.breaker.lastFailureTime = lastFailure execution.trace
  state : execution.state.breaker.state = .opened ↔ Opened config execution.trace
  stored : execution.state.breaker.state ≠ .halfOpen

variable {config} {history : List (BreakerEvent ι)}

theorem consecutiveFailures_concat (event : BreakerEvent ι) :
    consecutiveFailures (history ++ [event]) = match event with
      | .failed _ _ => consecutiveFailures history + 1
      | .succeeded _ _ => 0
      | _ => consecutiveFailures history := by
  cases event <;> simp [consecutiveFailures]

theorem lastFailure_concat (event : BreakerEvent ι) : lastFailure (history ++ [event]) =
      match event with
      | .failed _ now => some now
      | _ => lastFailure history := by
  cases event <;> simp [lastFailure]

namespace Breaker

variable {breaker : Breaker}

theorem stateAt_eq_opened {now : ℚ} (hstored : breaker.state ≠ .halfOpen) :
    breaker.stateAt config now = .opened ↔
      breaker.state = .opened ∧ ∀ last, breaker.lastFailureTime = some last →
        now - last < config.recoveryTimeout := by
  cases hstate : breaker.state <;> cases hlast : breaker.lastFailureTime <;> simp_all [stateAt]

theorem onFailure_of_stored {now : ℚ} (hstored : breaker.state ≠ .halfOpen) :
    breaker.onFailure config now =
      { failureCount := breaker.failureCount + 1
        lastFailureTime := some now
        state :=
          if config.failureThreshold ≤ breaker.failureCount + 1 then .opened
          else breaker.state } := by
  simp [onFailure, hstored]

end Breaker

theorem startCall_cases (config : BreakerConfig) (call : ι) (now : ℚ) (run : BreakerRun ι) :
    (run.breaker.stateAt config now = .opened ∧ startCall config call now run =
        ({ run with clock := now }, [.rejected call now])) ∨
    (run.breaker.stateAt config now ≠ .opened ∧ startCall config call now run =
        ({ run with
            clock := now
            inFlight :=
              (call, decide (run.breaker.stateAt config now = .halfOpen)) ::
                run.inFlight },
          [.admitted call now])) := by
  unfold startCall
  cases hstate : run.breaker.stateAt config now <;> simp

variable {pick : BreakerPick ι} {next : BreakerRun ι} {events : List (BreakerEvent ι)}

theorem step_cases [DecidableEq ι] {run : BreakerRun ι}
    (hstep : (breakerMachine config).step run pick = some (next, events)) :
    (∃ call now, pick = .start call now ∧ run.clock ≤ now ∧ call ∉ run.inFlight.map Prod.fst ∧
      startCall config call now run = (next, events)) ∨
    (∃ call result now, pick = .finish call result now ∧
      finishCall config call result now run = (next, events)) := by
  cases pick with
  | start call now =>
    simp only [breakerMachine] at hstep
    split at hstep
    · simp at hstep
    · next hlate =>
      rw [not_or, not_lt] at hlate
      exact .inl ⟨call, now, rfl, hlate.1, hlate.2, Option.some.inj hstep⟩
  | finish call result now =>
    simp only [breakerMachine] at hstep
    split at hstep
    · simp at hstep
    · exact .inr ⟨call, result, now, rfl, Option.some.inj hstep⟩

namespace Agrees

variable {run : BreakerRun ι} {history : List (BreakerEvent ι)}

theorem of_same_breaker (hagrees : Agrees config ⟨run, history⟩)
    {next : BreakerRun ι} {event : BreakerEvent ι}
    (hcount : consecutiveFailures (history ++ [event]) = consecutiveFailures history)
    (hlast : lastFailure (history ++ [event]) = lastFailure history)
    (hbreaker : next.breaker = run.breaker) :
    Agrees config ⟨next, history ++ [event]⟩ := by
  constructor
  · simpa [hbreaker, hcount] using hagrees.count
  · simpa [hbreaker, hcount, hlast] using hagrees.last
  · simpa [hbreaker, Opened, hcount] using hagrees.state
  · simpa [hbreaker] using hagrees.stored

theorem startCall (hagrees : Agrees config ⟨run, history⟩) (call : ι) (now : ℚ) :
    Agrees config ⟨(startCall config call now run).1,
      history ++ (Client.startCall config call now run).2⟩ := by
  obtain ⟨-, hstart⟩ | ⟨-, hstart⟩ := startCall_cases config call now run
  · rw [hstart]
    refine hagrees.of_same_breaker ?_ ?_ rfl
    · simp [consecutiveFailures_concat]
    · simp [lastFailure_concat]
  · rw [hstart]
    refine hagrees.of_same_breaker ?_ ?_ rfl
    · simp [consecutiveFailures_concat]
    · simp [lastFailure_concat]

theorem finishCall [DecidableEq ι] (hagrees : Agrees config ⟨run, history⟩)
    (call : ι) (result : CallEnd) (now : ℚ) :
    Agrees config ⟨(finishCall config call result now run).1,
      history ++ (Client.finishCall config call result now run).2⟩ := by
  cases result with
  | returned =>
    constructor <;> simp [Client.finishCall, Breaker.onSuccess, Opened,
      consecutiveFailures_concat]
  | raised =>
    have hcount := hagrees.count
    have hstate := hagrees.state
    have hstored := hagrees.stored
    simp only at hcount hstate hstored
    simp only [Client.finishCall, Breaker.onFailure_of_stored hstored]
    constructor
    · simp [consecutiveFailures_concat, hcount]
    · simp [lastFailure_concat]
    · rw [Opened] at hstate
      rw [Opened, consecutiveFailures_concat, hcount]
      by_cases hreached : config.failureThreshold ≤ (consecutiveFailures history : ℤ) + 1
      · simp [hreached]
      · simp only [hreached, if_false, hstate]
        push_cast
        omega
    · simp only
      split <;> simp [hstored]
  | unrecorded =>
    refine hagrees.of_same_breaker ?_ ?_ rfl
    · simp [consecutiveFailures_concat]
    · simp [lastFailure_concat]

theorem step [DecidableEq ι] {execution : Execution (BreakerRun ι) (BreakerEvent ι)}
    {pick : BreakerPick ι} {next : BreakerRun ι}
    {events : List (BreakerEvent ι)} (hagrees : Agrees config execution)
    (hstep : (breakerMachine config).step execution.state pick = some (next, events)) :
    Agrees config ⟨next, execution.trace ++ events⟩ := by
  obtain ⟨call, now, -, -, -, hnext⟩ | ⟨call, result, now, -, hnext⟩ :=
    step_cases hstep
  · have hstart := hagrees.startCall call now
    rwa [hnext] at hstart
  · have hfinish := hagrees.finishCall call result now
    rwa [hnext] at hfinish

end Agrees

/-! ## Every run -/

variable {execution : Execution (BreakerRun ι) (BreakerEvent ι)}

variable {now : ℚ}

theorem waited_of_admitted (hagrees : Agrees config execution)
    (hstate : execution.state.breaker.stateAt config now ≠ .opened) (call : ι) :
    Waited config execution.trace (.admitted call now) := by
  intro admitted time hevent hopened last hlast
  obtain ⟨-, htime⟩ := BreakerEvent.admitted.inj hevent
  have hcannot := mt (Breaker.stateAt_eq_opened hagrees.stored).mpr hstate
  simp only [not_and, not_forall, not_lt] at hcannot
  obtain ⟨stored, hstored, hwait⟩ := hcannot (hagrees.state.mpr hopened)
  rw [hagrees.last hopened.1, hlast] at hstored
  rw [Option.some.inj hstored, ← htime]
  exact hwait

theorem waited_of_not_admitted {before : List (BreakerEvent ι)}
    {event : BreakerEvent ι} (hevent : ∀ call now, event ≠ .admitted call now) :
    Waited config before event :=
  fun call now hadmitted => absurd hadmitted (hevent call now)

theorem probes_cons (run : BreakerRun ι) (call : ι) (now : ℚ) :
    (({ run with
        clock := now
        inFlight := (call, decide (run.breaker.stateAt config now =
          .halfOpen)) :: run.inFlight } : BreakerRun ι).probes.length ≤ 1) ↔
      run.probes.length ≤ 1 ∧
        (run.breaker.stateAt config now = .halfOpen → run.probes = []) := by
  by_cases hhalf : run.breaker.stateAt config now = .halfOpen
  · simp only [BreakerRun.probes, hhalf, decide_true, filter_cons_of_pos,
      length_cons, forall_const]
    rw [← length_eq_zero_iff]
    omega
  · simp [BreakerRun.probes, hhalf]

theorem probesAlone_of_disabled [DecidableEq ι] {run : BreakerRun ι}
    (hstep : (breakerMachine config).step run pick = none) :
    ProbesAlone config run pick := by
  rintro call now rfl hlate hnew
  simp only [breakerMachine, not_lt.mpr hlate, hnew, or_self, if_false, reduceCtorEq] at hstep

theorem protects_iff (hagrees : Agrees config execution)
    (hwaits : AtEach (Waited config) execution.trace) :
    Protects config execution ↔ execution.state.probes.length ≤ 1 :=
  ⟨Protects.probes, fun hprobes => ⟨hwaits, hprobes, hagrees.state⟩⟩

theorem protects_startCall (hagrees : Agrees config execution)
    (hprotects : Protects config execution) {call : ι}
    (hstart : startCall config call now execution.state = (next, events)) :
    Protects config ⟨next, execution.trace ++ events⟩ ↔
      (execution.state.breaker.stateAt config now = .halfOpen →
        execution.state.probes = []) := by
  have hnext := hagrees.startCall call now
  rw [hstart] at hnext
  obtain ⟨hopened, hrejects⟩ | ⟨hadmits, hadmitted⟩ :=
    startCall_cases config call now execution.state
  · obtain ⟨rfl, rfl⟩ := Prod.mk.inj (hrejects.symm.trans hstart)
    rw [protects_iff hnext (hprotects.waits.concat (waited_of_not_admitted fun _ _ => nofun))]
    refine iff_of_true hprotects.probes fun hhalf => ?_
    rw [hopened] at hhalf
    cases hhalf
  · obtain ⟨rfl, rfl⟩ := Prod.mk.inj (hadmitted.symm.trans hstart)
    have hwaits := hprotects.waits.concat (waited_of_admitted hagrees hadmits call)
    rw [protects_iff hnext hwaits]
    exact (probes_cons execution.state call now).trans (and_iff_right hprotects.probes)

theorem protects_finishCall [DecidableEq ι] (hagrees : Agrees config execution)
    (hprotects : Protects config execution) {call : ι} {result : CallEnd}
    (hfinish : finishCall config call result now execution.state = (next, events)) :
    Protects config ⟨next, execution.trace ++ events⟩ := by
  have hnext := hagrees.finishCall call result now
  rw [hfinish] at hnext
  have hevents : ∃ event, events = [event] ∧ ∀ call now, event ≠ .admitted call now := by
    cases result <;> obtain ⟨-, rfl⟩ := Prod.mk.inj hfinish <;> exact ⟨_, rfl, fun _ _ => nofun⟩
  have hflight : next.inFlight =
      execution.state.inFlight.filter fun other => other.1 ≠ call := by
    cases result <;> obtain ⟨rfl, -⟩ := Prod.mk.inj hfinish <;> rfl
  obtain ⟨event, rfl, hevent⟩ := hevents
  rw [protects_iff hnext (hprotects.waits.concat (waited_of_not_admitted hevent))]
  refine le_trans ?_ hprotects.probes
  rw [BreakerRun.probes, hflight]
  exact ((filter_sublist).filter _).length_le

theorem protects_step_iff [DecidableEq ι] (hagrees : Agrees config execution)
    (hprotects : Protects config execution)
    (hstep : (breakerMachine config).step execution.state pick = some (next, events)) :
    Protects config ⟨next, execution.trace ++ events⟩ ↔
      ProbesAlone config execution.state pick := by
  obtain ⟨call, now, rfl, hlate, hnew, hstart⟩ |
    ⟨call, result, now, rfl, hfinish⟩ := step_cases hstep
  · rw [protects_startCall hagrees hprotects hstart]
    refine ⟨?_, fun halone => halone call now rfl hlate hnew⟩
    rintro halone other time hpick - -
    obtain ⟨-, rfl⟩ := BreakerPick.start.inj hpick
    exact halone
  · refine iff_of_true (protects_finishCall hagrees hprotects hfinish) ?_
    intro other time hpick
    cases hpick

theorem protects_iff_probesAlone [DecidableEq ι] (config : BreakerConfig)
    (clock : ℚ) (schedule : List (BreakerPick ι)) :
    (∀ front, front <+: schedule →
      Protects config ((breakerMachine config).run { clock := clock } front)) ↔
      (breakerMachine config).Meets (ProbesAlone config) ⟨{ clock := clock }, []⟩ schedule := by
  apply Machine.forall_prefix_iff_meets (Agrees config) (Protects config)
  · exact fun _ _ _ _ hagrees hstep => hagrees.step hstep
  · exact fun _ _ _ _ hagrees hprotects => protects_step_iff hagrees hprotects
  · exact fun _ _ => probesAlone_of_disabled
  · constructor <;> simp [consecutiveFailures, Opened]
  · exact ⟨AtEach.nil, by simp [BreakerRun.probes],
      by simp [consecutiveFailures, Opened]⟩

/-- Two calls which start after the timeout probe the circuit together. -/
theorem not_protects_twoProbes :
    ¬ ∀ front, front <+: [.start 0 0, .finish 0 .raised 1, .start 1 20, .start 2 20] →
      Protects ⟨1, 10⟩ ((breakerMachine ⟨1, 10⟩).run ({ clock := 0 } : BreakerRun ℕ)
          front) := by
  intro hall
  have hprobes := (hall _ (prefix_refl _)).probes
  revert hprobes
  decide +kernel

end PyFly.Client
