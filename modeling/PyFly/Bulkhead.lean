import Mathlib.Data.List.Count
import PyFly.Library.AsyncSemaphore
import PyFly.Library.ScheduledMachine

/-!
# Bulkheads

A bulkhead counts the calls in flight by `_active`, and those of coroutine
functions by its semaphore as well.  A call that finds no slot is rejected
before it comes to the semaphore.
-/

namespace PyFly.Resilience

open Library List

/-! ## The bulkhead -/

structure Bulkhead (ι : Type) where
  maxConcurrent : ℤ
  semaphore : Semaphore ι
  active : ℤ

inductive Ending
  | returned
  | raised
  | cancelled
  deriving DecidableEq

inductive BulkheadEvent (ι : Type)
  | admitted (call : ι)
  | rejected (call : ι) (message : String)
  | waiting (call : ι)
  /-- The call was cancelled while it waited for the semaphore. -/
  | abandoned (call : ι)
  | ended (call : ι) (ending : Ending)

def BulkheadEvent.isAdmitted {ι : Type} : BulkheadEvent ι → Bool
  | .admitted _ => true
  | _ => false

def BulkheadEvent.isEnded {ι : Type} : BulkheadEvent ι → Bool
  | .ended _ _ => true
  | _ => false

namespace Bulkhead

variable {ι : Type}

def new (maxConcurrent : ℤ) : Except String (Bulkhead ι) :=
  if maxConcurrent < 0 then .error "Semaphore initial value must be >= 0"
  else .ok ⟨maxConcurrent, ⟨maxConcurrent, []⟩, 0⟩

def atCapacity (bh : Bulkhead ι) : String :=
  "Bulkhead at capacity (" ++ toString bh.maxConcurrent ++ " concurrent calls)"

def acquire (bh : Bulkhead ι) (call : ι) : Bulkhead ι × BulkheadEvent ι :=
  if bh.maxConcurrent ≤ bh.active then (bh, .rejected call bh.atCapacity)
  else
    match bh.semaphore.acquire call with
    | (semaphore, true) =>
      ({ bh with semaphore := semaphore, active := bh.active + 1 },
        .admitted call)
    | (semaphore, false) =>
      ({ bh with semaphore := semaphore }, .waiting call)

def release (bh : Bulkhead ι) : Bulkhead ι :=
  { bh with active := bh.active - 1, semaphore := bh.semaphore.release }

def availableSlots (bh : Bulkhead ι) : ℤ :=
  bh.maxConcurrent - bh.active

end Bulkhead

/-! ## Calls -/

/-- A bulkhead with the calls whose functions run: whether these are coroutine
functions. -/
structure BulkheadRun (ι : Type) where
  bulkhead : Bulkhead ι
  inFlight : List (ι × Bool)

inductive BulkheadPick (ι : Type)
  | start (call : ι) (isCoroutineFunction : Bool)
  /-- A call is cancelled while it waits for the semaphore. -/
  | cancel (call : ι)
  /-- A call goes on after it has waited for the semaphore. -/
  | resume (call : ι)
  | finish (call : ι × Bool) (ending : Ending)

namespace BulkheadRun

variable {ι : Type}

def startWrapper (run : BulkheadRun ι) (call : ι) : BulkheadRun ι × List (BulkheadEvent ι) :=
  match run.bulkhead.acquire call with
  | (bh, .admitted call) =>
    (⟨bh, (call, true) :: run.inFlight⟩, [.admitted call])
  | (bh, event) => (⟨bh, run.inFlight⟩, [event])

def startSyncWrapper (run : BulkheadRun ι) (call : ι) :
    BulkheadRun ι × List (BulkheadEvent ι) :=
  let bh := run.bulkhead
  if bh.maxConcurrent ≤ bh.active then
    (run, [.rejected call bh.atCapacity])
  else
    (⟨{ bh with active := bh.active + 1 }, (call, false) :: run.inFlight⟩,
      [.admitted call])

variable [DecidableEq ι]

/-- `_active += 1` behind the semaphore, or the cancellation goes on. -/
def resumeCall (run : BulkheadRun ι) (call : ι) :
    Option (BulkheadRun ι × List (BulkheadEvent ι)) :=
  let bh := run.bulkhead
  match bh.semaphore.resume call with
  | none => none
  | some (semaphore, true) =>
    some (⟨{ bh with semaphore := semaphore, active := bh.active + 1 },
      (call, true) :: run.inFlight⟩, [.admitted call])
  | some (semaphore, false) =>
    some (⟨{ bh with semaphore := semaphore }, run.inFlight⟩,
      [.abandoned call])

/-- The `finally` of either wrapper, however the function has ended. -/
def finishCall (run : BulkheadRun ι) (call : ι × Bool) (ending : Ending) :
    BulkheadRun ι × List (BulkheadEvent ι) :=
  let bh := run.bulkhead
  let inFlight := run.inFlight.erase call
  if call.2 then (⟨bh.release, inFlight⟩, [.ended call.1 ending])
  else
    (⟨{ bh with active := bh.active - 1 }, inFlight⟩,
      [.ended call.1 ending])

end BulkheadRun

def bulkheadMachine {ι : Type} [DecidableEq ι] :
    Machine (BulkheadRun ι) (BulkheadPick ι) (BulkheadEvent ι) where
  step run
    | .start call true => some (run.startWrapper call)
    | .start call false => some (run.startSyncWrapper call)
    | .cancel call =>
      if call ∈ run.bulkhead.semaphore.waiters.map Prod.fst then
        some ({ run with bulkhead :=
          { run.bulkhead with
            semaphore := run.bulkhead.semaphore.cancel call } }, [])
      else none
    | .resume call => run.resumeCall call
    | .finish call ending =>
      if call ∈ run.inFlight then some (run.finishCall call ending)
      else none

namespace BulkheadRun

variable {ι : Type}

structure Slots (maxConcurrent : ℤ) (run : BulkheadRun ι) : Prop where
  capacity : run.bulkhead.maxConcurrent = maxConcurrent
  active : run.bulkhead.active = run.inFlight.length
  bounded : (run.inFlight.length : ℤ) ≤ maxConcurrent
  waiters : run.bulkhead.semaphore.waiters = []
  permits : run.bulkhead.semaphore.value + run.inFlight.countP Prod.snd = maxConcurrent

theorem slots_new {maxConcurrent : ℤ} {bh : Bulkhead ι}
    (h : Bulkhead.new maxConcurrent = .ok bh) :
    Slots maxConcurrent ⟨bh, []⟩ := by
  rw [Bulkhead.new] at h
  split at h
  · cases h
  · next hnonneg =>
      obtain rfl := Except.ok.inj h
      exact ⟨rfl, rfl, not_lt.mp hnonneg, rfl, Int.add_zero _⟩

variable {maxConcurrent : ℤ} {run : BulkheadRun ι}

theorem Slots.full_iff (h : Slots maxConcurrent run) :
    run.bulkhead.maxConcurrent ≤ run.bulkhead.active ↔
      (run.inFlight.length : ℤ) = maxConcurrent := by
  rw [h.capacity, h.active]
  exact ⟨fun hfull => le_antisymm h.bounded hfull, fun hfull =>
    le_of_eq hfull.symm⟩

theorem Slots.startWrapper_full (h : Slots maxConcurrent run) (call : ι)
    (hfull : (run.inFlight.length : ℤ) = maxConcurrent) :
    run.startWrapper call = (run, [.rejected call run.bulkhead.atCapacity]) := by
  rw [startWrapper, Bulkhead.acquire, if_pos (h.full_iff.mpr hfull)]

theorem Slots.startWrapper_free (h : Slots maxConcurrent run) (call : ι)
    (hfree : (run.inFlight.length : ℤ) ≠ maxConcurrent) :
    run.startWrapper call = (⟨{ run.bulkhead with
          semaphore := { run.bulkhead.semaphore with
            value := run.bulkhead.semaphore.value - 1 }
          active := run.bulkhead.active + 1 },
        (call, true) :: run.inFlight⟩, [.admitted call]) := by
  have hvalue : 0 < run.bulkhead.semaphore.value := by
    have hpermits := h.permits
    have hbounded := h.bounded
    have hcount := countP_le_length (p := Prod.snd) (l := run.inFlight)
    omega
  rw [startWrapper, Bulkhead.acquire, if_neg (mt h.full_iff.mp hfree),
    Semaphore.acquire_of_free hvalue h.waiters]

theorem Slots.startSyncWrapper_full (h : Slots maxConcurrent run) (call : ι)
    (hfull : (run.inFlight.length : ℤ) = maxConcurrent) :
    run.startSyncWrapper call = (run, [.rejected call run.bulkhead.atCapacity]) :=
  if_pos (h.full_iff.mpr hfull)

theorem Slots.startSyncWrapper_free (h : Slots maxConcurrent run)
    (call : ι) (hfree : (run.inFlight.length : ℤ) ≠ maxConcurrent) :
    run.startSyncWrapper call = (⟨{ run.bulkhead with active := run.bulkhead.active + 1 },
        (call, false) :: run.inFlight⟩, [.admitted call]) :=
  if_neg (mt h.full_iff.mp hfree)

def bodiesInFlight (trace : List (BulkheadEvent ι)) : ℤ :=
  trace.countP BulkheadEvent.isAdmitted - trace.countP BulkheadEvent.isEnded

theorem bodiesInFlight_append (first second : List (BulkheadEvent ι)) :
    bodiesInFlight (first ++ second) = bodiesInFlight first + bodiesInFlight second := by
  unfold bodiesInFlight
  rw [countP_append, countP_append]
  omega

/-! ## One step -/

variable [DecidableEq ι]

theorem finishCall_inFlight (run : BulkheadRun ι) (call : ι × Bool) (ending : Ending) :
    (run.finishCall call ending).1.inFlight = run.inFlight.erase call := by
  unfold finishCall
  dsimp only
  split <;> rfl

theorem finishCall_events (run : BulkheadRun ι) (call : ι × Bool) (ending : Ending) :
    (run.finishCall call ending).2 = [.ended call.1 ending] := by
  unfold finishCall
  dsimp only
  split <;> rfl

theorem Slots.finishCall (h : Slots maxConcurrent run) {call : ι × Bool}
    (hcall : call ∈ run.inFlight) (ending : Ending) :
    Slots maxConcurrent (run.finishCall call ending).1 := by
  have hlength := length_erase_of_mem hcall
  have hpos := length_pos_of_mem hcall
  have hactive := h.active
  have hbounded := h.bounded
  have hpermits := h.permits
  have hcount := countP_erase Prod.snd run.inFlight call
  obtain ⟨name, isCoroutine⟩ := call
  cases isCoroutine with
  | true =>
    have hcountPos : 0 < run.inFlight.countP Prod.snd :=
      countP_pos_iff.mpr ⟨_, hcall, rfl⟩
    rw [if_pos ⟨hcall, rfl⟩] at hcount
    constructor
    · exact h.capacity
    · show run.bulkhead.active - 1 = ((run.inFlight.erase _).length : ℤ)
      omega
    · show ((run.inFlight.erase _).length : ℤ) ≤ _
      omega
    · show run.bulkhead.semaphore.release.waiters = []
      rw [Semaphore.release_of_free h.waiters]
      exact h.waiters
    · show run.bulkhead.semaphore.release.value +
        ((run.inFlight.erase _).countP Prod.snd : ℤ) = _
      rw [Semaphore.release_of_free h.waiters, hcount]
      dsimp only
      omega
  | false =>
    rw [if_neg (fun hboth => Bool.false_ne_true hboth.2)] at hcount
    constructor
    · exact h.capacity
    · show run.bulkhead.active - 1 = ((run.inFlight.erase _).length : ℤ)
      omega
    · show ((run.inFlight.erase _).length : ℤ) ≤ _
      omega
    · exact h.waiters
    · show run.bulkhead.semaphore.value + ((run.inFlight.erase _).countP Prod.snd : ℤ) = _
      rw [hcount]
      exact hpermits

theorem Slots.start (h : Slots maxConcurrent run) (call : ι) (isCoroutine : Bool) :
    bulkheadMachine.step run (.start call isCoroutine) =
        some (run, [.rejected call run.bulkhead.atCapacity]) ∧
      (run.inFlight.length : ℤ) = maxConcurrent ∨
    ∃ next, bulkheadMachine.step run (.start call isCoroutine) = some (next, [.admitted call]) ∧
      (run.inFlight.length : ℤ) ≠ maxConcurrent ∧ Slots maxConcurrent next ∧
          next.inFlight.length = run.inFlight.length + 1 := by
  by_cases hfull : (run.inFlight.length : ℤ) = maxConcurrent
  · left
    cases isCoroutine with
    | true => exact ⟨congrArg some (h.startWrapper_full call hfull), hfull⟩
    | false =>
      exact ⟨congrArg some (h.startSyncWrapper_full call hfull), hfull⟩
  · right
    have hactive := h.active
    have hbounded := h.bounded
    have hpermits := h.permits
    cases isCoroutine with
    | true =>
      refine ⟨_, congrArg some (h.startWrapper_free call hfull), hfull, ?_, rfl⟩
      constructor
      · exact h.capacity
      · show run.bulkhead.active + 1 = ((run.inFlight.length + 1 : ℕ) : ℤ)
        omega
      · show ((run.inFlight.length + 1 : ℕ) : ℤ) ≤ _
        omega
      · exact h.waiters
      · have hcount : ((call, true) :: run.inFlight).countP Prod.snd =
            run.inFlight.countP Prod.snd + 1 := countP_cons_of_pos rfl
        show run.bulkhead.semaphore.value - 1 +
          (((call, true) :: run.inFlight).countP Prod.snd : ℤ) = _
        omega
    | false =>
      refine ⟨_, congrArg some (h.startSyncWrapper_free call hfull), hfull, ?_, rfl⟩
      constructor
      · exact h.capacity
      · show run.bulkhead.active + 1 = ((run.inFlight.length + 1 : ℕ) : ℤ)
        omega
      · show ((run.inFlight.length + 1 : ℕ) : ℤ) ≤ _
        omega
      · exact h.waiters
      · exact h.permits

structure Tracked (maxConcurrent : ℤ) (run : BulkheadRun ι)
    (trace : List (BulkheadEvent ι)) : Prop where
  slots : Slots maxConcurrent run
  bodies : bodiesInFlight trace = run.inFlight.length
  immediate : ∀ call, .waiting call ∉ trace

omit [DecidableEq ι] in
theorem Tracked.append {trace events : List (BulkheadEvent ι)}
    {next : BulkheadRun ι} (h : Tracked maxConcurrent run trace)
    (hslots : Slots maxConcurrent next)
    (hbodies : run.inFlight.length + bodiesInFlight events = next.inFlight.length)
    (himmediate : ∀ call, .waiting call ∉ events) :
    Tracked maxConcurrent next (trace ++ events) := by
  refine ⟨hslots, ?_, ?_⟩
  · rw [bodiesInFlight_append, h.bodies]
    exact hbodies
  · intro call hwaiting
    rcases mem_append.mp hwaiting with hold | hnew
    · exact h.immediate call hold
    · exact himmediate call hnew

theorem Tracked.step {trace events : List (BulkheadEvent ι)}
    {next : BulkheadRun ι} (h : Tracked maxConcurrent run trace)
    {pick : BulkheadPick ι}
    (hstep : bulkheadMachine.step run pick = some (next, events)) :
    Tracked maxConcurrent next (trace ++ events) := by
  cases pick with
  | start call isCoroutine =>
    rcases h.slots.start call isCoroutine with
      ⟨hrejected, -⟩ | ⟨after, hadmitted, -, hslots, hlength⟩
    · rw [hrejected] at hstep
      obtain ⟨rfl, rfl⟩ := Prod.mk.inj (Option.some.inj hstep)
      refine h.append h.slots (Int.add_zero _) ?_
      intro other hother
      cases mem_singleton.mp hother
    · rw [hadmitted] at hstep
      obtain ⟨rfl, rfl⟩ := Prod.mk.inj (Option.some.inj hstep)
      refine h.append hslots ?_ ?_
      · rw [hlength]
        rfl
      · intro other hother
        cases mem_singleton.mp hother
  | cancel call =>
    rw [bulkheadMachine] at hstep
    dsimp only at hstep
    rw [h.slots.waiters, map_nil, if_neg not_mem_nil] at hstep
    cases hstep
  | resume call =>
    have hresume : bulkheadMachine.step run (.resume call) = none := by
      show run.resumeCall call = none
      rw [resumeCall, Semaphore.resume_of_free h.slots.waiters]
    rw [hresume] at hstep
    cases hstep
  | finish call ending =>
    rw [bulkheadMachine] at hstep
    dsimp only at hstep
    split at hstep
    · next hcall =>
        have hresult := Option.some.inj hstep
        have hevents := finishCall_events run call ending
        have hinFlight := finishCall_inFlight run call ending
        have hslots := h.slots.finishCall hcall ending
        rw [hresult] at hevents hinFlight hslots
        dsimp only at hevents hinFlight hslots
        subst hevents
        refine h.append hslots ?_ ?_
        · have hlength := length_erase_of_mem hcall
          have hpos := length_pos_of_mem hcall
          have hended : bodiesInFlight [BulkheadEvent.ended call.1 ending] = -1 := rfl
          rw [hinFlight, hended]
          omega
        · intro other hother
          cases mem_singleton.mp hother
    · cases hstep

/-! ## All runs -/

structure Isolates (maxConcurrent : ℤ)
    (execution : Execution (BulkheadRun ι) (BulkheadEvent ι)) : Prop where
  active : execution.state.bulkhead.active = bodiesInFlight execution.trace
  bounded : bodiesInFlight execution.trace ≤ maxConcurrent
  rejects : ∀ call isCoroutine, ∃ next events,
    bulkheadMachine.step execution.state (.start call isCoroutine) = some (next, events) ∧
    ((∃ message, events = [.rejected call message]) ↔
      bodiesInFlight execution.trace = maxConcurrent) ∧
    (events = [.admitted call] ↔ bodiesInFlight execution.trace ≠ maxConcurrent)
  immediate : execution.state.bulkhead.semaphore.waiters = [] ∧
    ∀ call, .waiting call ∉ execution.trace
  idle : bodiesInFlight execution.trace = 0 →
    execution.state.bulkhead.availableSlots = maxConcurrent ∧
      execution.state.bulkhead.semaphore.value = maxConcurrent

theorem Tracked.isolates {execution : Execution (BulkheadRun ι) (BulkheadEvent ι)}
    (h : Tracked maxConcurrent execution.state execution.trace) :
    Isolates maxConcurrent execution := by
  constructor
  · rw [h.bodies, h.slots.active]
  · rw [h.bodies]
    exact h.slots.bounded
  · intro call isCoroutine
    rw [h.bodies]
    rcases h.slots.start call isCoroutine with
      ⟨hrejected, hfull⟩ | ⟨next, hadmitted, hfree, -, -⟩
    · refine ⟨_, _, hrejected, iff_of_true ⟨_, rfl⟩ hfull,
        iff_of_false ?_ (not_not_intro hfull)⟩
      intro hsame
      cases hsame
    · refine ⟨_, _, hadmitted, iff_of_false ?_ hfree, iff_of_true rfl hfree⟩
      rintro ⟨message, hsame⟩
      cases hsame
  · exact ⟨h.slots.waiters, h.immediate⟩
  · intro hidle
    have hpermits := h.slots.permits
    have hnil : execution.state.inFlight = [] := by
      rw [h.bodies] at hidle
      exact eq_nil_of_length_eq_zero (by omega)
    rw [hnil] at hpermits
    refine ⟨?_, (Int.add_zero _).symm.trans hpermits⟩
    rw [Bulkhead.availableSlots, h.slots.capacity, h.slots.active, hnil]
    exact Int.sub_zero _

/-- In every state which calls come to in any order. -/
theorem run_isolates {bh : Bulkhead ι} (h : Bulkhead.new maxConcurrent = .ok bh)
    (schedule : List (BulkheadPick ι)) :
    Isolates maxConcurrent (bulkheadMachine.run ⟨bh, []⟩ schedule) := by
  apply Tracked.isolates
  refine Machine.runFrom_invariant (Tracked maxConcurrent) ?_ ?_ schedule
  · intro state trace pick next events htracked hstep
    exact htracked.step hstep
  · exact ⟨slots_new h, rfl, fun call => not_mem_nil⟩

/-- The second slot is taken by a plain function, the third call is rejected and
the first one is cancelled. -/
theorem run_isolates_two : Isolates 2 (bulkheadMachine.run ⟨⟨2, ⟨2, []⟩, 0⟩, []⟩
      [.start 0 true, .start 1 false, .start 2 true, .finish (0, true) .cancelled]) :=
  run_isolates rfl _

end BulkheadRun

end PyFly.Resilience
