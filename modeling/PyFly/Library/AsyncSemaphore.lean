import Mathlib.Data.Int.Order.Basic

/-!
# Semaphores of an event loop

A task which finds no permit waits for one.  A release hands the permit to the
first task which waits, and wakes it; a task may be cancelled while it waits, or
when it was woken and has not run yet.
-/

namespace PyFly.Library

inductive Waiter
  | pending
  | woken
  | cancelled
  /-- The permit was handed over before the task was cancelled. -/
  | wokenAndCancelled
  deriving DecidableEq

structure Semaphore (ι : Type) where
  value : ℤ
  waiters : List (ι × Waiter)

namespace Semaphore

variable {ι : Type}

def locked (semaphore : Semaphore ι) : Bool :=
  semaphore.value = 0 || semaphore.waiters.any fun waiter => waiter.2 ≠ .cancelled

/-- An acquisition until it returns, or else waits. -/
def acquire (semaphore : Semaphore ι) (task : ι) : Semaphore ι × Bool :=
  if semaphore.locked then
    ({ semaphore with waiters := semaphore.waiters ++ [(task, .pending)] },
      false)
  else ({ semaphore with value := semaphore.value - 1 }, true)

def wakeFirst : List (ι × Waiter) → Option (List (ι × Waiter))
  | [] => none
  | (task, .pending) :: waiters => some ((task, .woken) :: waiters)
  | waiter :: waiters => (wakeFirst waiters).map fun rest => waiter :: rest

def wakeUpNext (semaphore : Semaphore ι) : Option (Semaphore ι) :=
  (wakeFirst semaphore.waiters).map fun waiters =>
    { value := semaphore.value - 1, waiters := waiters }

def release (semaphore : Semaphore ι) : Semaphore ι :=
  let freed := { semaphore with value := semaphore.value + 1 }
  freed.wakeUpNext.getD freed

def wakeUpAll : ℕ → Semaphore ι → Semaphore ι
  | 0, semaphore => semaphore
  | count + 1, semaphore =>
    if 0 < semaphore.value then
      match semaphore.wakeUpNext with
      | none => semaphore
      | some woken => wakeUpAll count woken
    else semaphore

variable [DecidableEq ι]

def cancel (semaphore : Semaphore ι) (task : ι) : Semaphore ι :=
  { semaphore with
    waiters := semaphore.waiters.map fun waiter =>
      if waiter.1 = task then
        match waiter.2 with
        | .pending => (task, .cancelled)
        | .woken => (task, .wokenAndCancelled)
        | state => (task, state)
      else waiter }

def resume (semaphore : Semaphore ι) (task : ι) : Option (Semaphore ι × Bool) :=
  let waiters := semaphore.waiters.filter fun waiter => waiter.1 ≠ task
  let wakeUp := wakeUpAll waiters.length
  match semaphore.waiters.lookup task with
  | some .woken => some (wakeUp ⟨semaphore.value, waiters⟩, true)
  | some .cancelled => some (wakeUp ⟨semaphore.value, waiters⟩, false)
  | some .wokenAndCancelled =>
    some (wakeUp ⟨semaphore.value + 1, waiters⟩, false)
  | _ => none

variable {semaphore : Semaphore ι}

omit [DecidableEq ι] in
theorem acquire_of_free (hvalue : 0 < semaphore.value)
    (hwaiters : semaphore.waiters = []) (task : ι) :
    semaphore.acquire task = ({ semaphore with value := semaphore.value - 1 }, true) := by
  have hunlocked : semaphore.locked = false := by
    rw [locked, hwaiters, List.any_nil, Bool.or_false]
    exact decide_eq_false (ne_of_gt hvalue)
  rw [acquire, hunlocked]
  rfl

omit [DecidableEq ι] in
theorem release_of_free (hwaiters : semaphore.waiters = []) :
    semaphore.release = { semaphore with value := semaphore.value + 1 } := by
  rw [release, wakeUpNext]
  dsimp only
  rw [hwaiters]
  rfl

theorem resume_of_free (hwaiters : semaphore.waiters = []) (task : ι) :
    semaphore.resume task = none := by
  rw [resume, hwaiters]
  rfl

end Semaphore

end PyFly.Library
