/-!
# Coroutine functions

Calling a coroutine function only makes a coroutine object; its body runs
when the object is awaited.  A function which wraps another and calls it is
no coroutine function, whatever it wraps.
-/

namespace PyFly.Library

inductive PyObject (U V E : Type)
  | plain (value : V)
  | coroutine (body : U → Except E (PyObject U V E) × U)

structure World (U : Type) where
  state : U
  bodiesRun : Nat

abbrev PyRun (U V E : Type) :=
  World U → Except E (PyObject U V E) × World U

variable {U A V E : Type}

def runBody (body : U → Except E (PyObject U V E) × U) : PyRun U V E :=
  fun world =>
    let (result, state) := body world.state
    (result, ⟨state, world.bodiesRun + 1⟩)

@[simp] theorem runBody_bodiesRun
    (body : U → Except E (PyObject U V E) × U) (world : World U) :
    (runBody body world).2.bodiesRun = world.bodiesRun + 1 :=
  rfl

def PyObject.await (notAwaitable : E) : PyObject U V E → PyRun U V E
  | plain _ => fun world => (.error notAwaitable, world)
  | coroutine body => runBody body

/-- A function: `def`, `async def`, or one which calls another and returns
what that returns. -/
inductive PyFunction (U A V E : Type)
  | sync (body : A → U → Except E (PyObject U V E) × U)
  | async (body : A → U → Except E (PyObject U V E) × U)
  | wrapper (func : PyFunction U A V E)

namespace PyFunction

/-- `inspect.iscoroutinefunction`, which does not look at what is wrapped. -/
def isCoroutineFunction : PyFunction U A V E → Bool
  | sync _ => false
  | async _ => true
  | wrapper _ => false

def call : PyFunction U A V E → A → PyRun U V E
  | sync body, args => runBody (body args)
  | async body, args => fun world => (.ok (.coroutine (body args)), world)
  | wrapper func, args => func.call args

def complete : PyFunction U A V E → A → PyRun U V E
  | sync body, args => runBody (body args)
  | async body, args => runBody (body args)
  | wrapper func, args => func.complete args

def unwrapped : PyFunction U A V E → PyFunction U A V E
  | wrapper func => func.unwrapped
  | func => func

def callOrAwait (notAwaitable : E) (func : PyFunction U A V E) (args : A) :
    PyRun U V E := fun world =>
  if func.isCoroutineFunction then
    match func.call args world with
    | (.ok object, called) => object.await notAwaitable called
    | (.error error, called) => (.error error, called)
  else func.call args world

theorem complete_bodiesRun (func : PyFunction U A V E) (args : A) (world : World U) :
    (func.complete args world).2.bodiesRun = world.bodiesRun + 1 := by
  induction func with
  | sync body => rfl
  | async body => rfl
  | wrapper func ih => exact ih

variable {func : PyFunction U A V E}

theorem call_of_unwrapped_sync (hsync : func.unwrapped.isCoroutineFunction = false) (args : A) :
    func.call args = func.complete args := by
  induction func with
  | sync body => rfl
  | async body => cases hsync
  | wrapper func ih => exact ih hsync

theorem call_of_unwrapped_async (hasync : func.unwrapped.isCoroutineFunction = true) (args : A)
    (world : World U) :
    (func.call args world).2 = world := by
  induction func with
  | sync body => cases hasync
  | async body => rfl
  | wrapper func ih => exact ih hasync

def HidesCoroutine (func : PyFunction U A V E) : Prop :=
  func.isCoroutineFunction = false ∧ func.unwrapped.isCoroutineFunction = true

theorem callOrAwait_eq_complete (notAwaitable : E) (hshown : ¬ func.HidesCoroutine) (args : A) :
    func.callOrAwait notAwaitable args = func.complete args := by
  cases func with
  | sync body => rfl
  | async body => rfl
  | wrapper func =>
    apply call_of_unwrapped_sync
    rw [← Bool.not_eq_true]
    exact fun hasync => hshown ⟨rfl, hasync⟩

theorem callOrAwait_of_hidden (notAwaitable : E) (hhidden : func.HidesCoroutine)
    (args : A) (world : World U) :
    (func.callOrAwait notAwaitable args world).2 = world := by
  unfold callOrAwait
  rw [hhidden.1]
  exact call_of_unwrapped_async hhidden.2 args world

end PyFunction

end PyFly.Library
